import TailscaleVita.CtlTypes
/-!
# CtlNetmap — merging a frame into the netmap (`ts-control/src/netmap.rs`)

`apply` runs in the source's order; the four kinds of peer changes, which come last, touch only `PeerTables` and the
delta.
-/
namespace TailscaleVita.Ctl

/-! ## Reading wire texts -/

def hexPairs : Text → Option Bytes
  | [] => some []
  | [_] => none
  | a :: b :: rest =>
    match fromStrRadix 8 16 [a, b] with
    | none => none
    | some x => (hexPairs rest).map (fun xs => x :: xs)

def keyOfBytes (bs : Bytes) : NodeKey := bs.foldl (fun acc b => (acc <<< 8) ||| b.setWidth 256) 0

def decodeHex32 (hex : Text) : Option NodeKey := if utf8Len hex ≠ 64 then none else (hexPairs hex).map keyOfBytes

def parseNodekeyWithPrefix (s lead : Text) : Option NodeKey := decodeHex32 ((stripLeading lead s).getD s)

def nodekeyLead : Text := "nodekey:".toList
def discokeyLead : Text := "discokey:".toList

def parseNodekey (s : Text) : Option NodeKey := parseNodekeyWithPrefix s nodekeyLead

def parseIpv4Cidr (s : Text) : Option AllowedIp :=
  match splitOnce '/' s with
  | none => none
  | some (ip, len) =>
    match parseIpv4Addr ip, fromStrRadix 8 10 len with
    | some addr, some p => if h : p.toNat ≤ 32 then some ⟨addr, p.toNat, h⟩ else none
    | _, _ => none

def parseAddrs (addrs : List Text) : List AllowedIp := addrs.filterMap parseIpv4Cidr

def parseEndpoints (addrs : List Text) : List SocketAddr := addrs.filterMap parseSocketAddr

def parseLegacyDerp (s : Text) : Option (BitVec 16) :=
  match rsplitOnce ':' s with
  | none => none
  | some (_, port) => fromStrRadix 16 10 port

def parseFilterCidr (s : Text) : Option AllowedIp :=
  if s = ['*'] then some ⟨0, 0, by decide⟩
  else
    match parseIpv4Addr s with
    | some addr => some ⟨addr, 32, by decide⟩
    | none => parseIpv4Cidr s

def filterRangeFromWire (dst : NetPortRangeWire) : Option NetPortRange :=
  match parseFilterCidr dst.ip with
  | none => none
  | some ip => if dst.ports.first ≤ dst.ports.last then some ⟨ip, dst.ports.first, dst.ports.last⟩ else none

def filterRuleFromWire (wire : FilterRuleWire) : Option FilterRule :=
  let srcIps := wire.srcIps.filterMap parseFilterCidr
  let dstPorts := wire.dstPorts.filterMap filterRangeFromWire
  -- a malformed or IPv6-only rule must not become an allow
  if !srcIps.isEmpty && !dstPorts.isEmpty then some ⟨srcIps, dstPorts, wire.ipProto⟩ else none

def userProfileFromWire (w : UserProfileWire) : UserProfile := ⟨w.id, w.loginName, w.displayName⟩

def parseDerpRegions (dmap : DerpMapWire) : HashMap (BitVec 16) DerpRegionSnapshot :=
  dmap.regions.foldl (fun m r =>
    m.insert r.2.regionId ⟨r.2.regionId, r.2.regionCode, r.2.regionName,
      r.2.nodes.map (fun n => ⟨n.name, n.regionId, n.hostname, n.ipv4, n.ipv6, n.derpPort, n.stunPort⟩)⟩) ∅

def nodeToSnapshot (n : NodeWire) : Option PeerSnapshot :=
  match parseNodekey n.key with
  | none => none
  | some nodeKey =>
    let discoKey := if n.discoKey.isEmpty then none else parseNodekeyWithPrefix n.discoKey discokeyLead
    let allowedIps := parseAddrs n.allowedIps
    some {
      nodeId := n.id
      nodeKey := nodeKey
      discoKey := discoKey
      name := n.name
      -- control leaves AllowedIPs out when it equals Addresses
      allowedIps := if allowedIps.isEmpty then parseAddrs n.addresses else allowedIps
      homeDerp := if n.homeDerp ≠ 0 then n.homeDerp else (parseLegacyDerp n.derpLegacy).getD 0
      online := n.online.getD false
      endpoints := parseEndpoints n.endpoints
      lastSeen := n.lastSeen
      keyExpiry := n.keyExpiry }

def applyPatchFields (peer : PeerSnapshot) (patch : PeerChangeWire) : PeerSnapshot :=
  { peer with
    homeDerp := (patch.homeDerp.or patch.derpRegionLegacy).getD peer.homeDerp
    discoKey := (patch.discoKey.bind (fun d => parseNodekeyWithPrefix d discokeyLead)).or peer.discoKey
    online := patch.online.getD peer.online
    endpoints := (patch.endpoints.map parseEndpoints).getD peer.endpoints
    lastSeen := patch.lastSeen.or peer.lastSeen
    keyExpiry := patch.keyExpiry.or peer.keyExpiry }

/-! ## Peer changes -/

structure Applying where
  tables : PeerTables
  delta : PeerDelta

namespace Applying

def upsertNode (s : Applying) (n : NodeWire) : Applying :=
  match nodeToSnapshot n with
  | none => s
  | some snap =>
    { tables := ⟨s.tables.peers.insert snap.nodeKey snap, s.tables.idToKey.insert snap.nodeId snap.nodeKey⟩
      delta := { s.delta with upserted := s.delta.upserted ++ [snap] } }

def dropUnlisted (newKeys : List NodeKey) (s : Applying) (old : NodeKey) : Applying :=
  if newKeys.contains old then s
  else
    { tables := { s.tables with peers := s.tables.peers.erase old }
      delta := { s.delta with removed := s.delta.removed ++ [old] } }

def applyPeers (ord : HashOrder NodeKey) (s : Applying) (peers : List NodeWire) : Applying :=
  let newKeys := peers.filterMap (fun n => parseNodekey n.key)
  let oldKeys := ord.order s.tables.peers.keys
  let s := oldKeys.foldl (dropUnlisted newKeys) s
  peers.foldl upsertNode { s with tables := { s.tables with idToKey := ∅ } }

def removeId (s : Applying) (id : NodeId) : Applying :=
  match s.tables.idToKey.lookup id with
  | none => s
  | some key =>
    { tables := ⟨s.tables.peers.erase key, s.tables.idToKey.erase id⟩
      delta := { s.delta with removed := s.delta.removed ++ [key] } }

def rekeyTo (patch : PeerChangeWire) (nodeKey : NodeKey) : Option NodeKey :=
  match patch.key.bind parseNodekey with
  | some newKey => if newKey ≠ nodeKey then some newKey else none
  | none => none

def applyPatch (s : Applying) (patch : PeerChangeWire) : Applying :=
  match s.tables.idToKey.lookup patch.nodeId with
  | none => { s with delta := { s.delta with patchesSkippedUnknownNodeId := s.delta.patchesSkippedUnknownNodeId + 1 } }
  | some nodeKey =>
    match s.tables.peers.lookup nodeKey with
    | none =>
      { s with delta := { s.delta with patchesSkippedUnknownNodeId := s.delta.patchesSkippedUnknownNodeId + 1 } }
    | some peer =>
      match rekeyTo patch nodeKey with
      | some newKey =>
        let newPeer := applyPatchFields { peer with nodeKey := newKey } patch
        { tables :=
            ⟨(s.tables.peers.erase nodeKey).insert newKey newPeer, s.tables.idToKey.insert newPeer.nodeId newKey⟩
          delta :=
            { s.delta with
              rekeyed := s.delta.rekeyed ++ [⟨nodeKey, newPeer⟩]
              patchesApplied := s.delta.patchesApplied + 1 } }
      | none =>
        let peer := applyPatchFields peer patch
        { tables := { s.tables with peers := s.tables.peers.insert nodeKey peer }
          delta :=
            { s.delta with
              patchesApplied := s.delta.patchesApplied + 1
              upserted := s.delta.upserted ++ [peer] } }

def applyPeerChanges (ord : HashOrder NodeKey) (resp : MapResponseWire) (s : Applying) : Applying :=
  let s := match resp.peers with
    | some peers => s.applyPeers ord peers
    | none => s
  let s := (resp.peersChanged.getD []).foldl upsertNode s
  let s := (resp.peersRemoved.getD []).foldl removeId s
  (resp.peersChangedPatch.getD []).foldl applyPatch s

end Applying

/-! ## `NetMap::apply` -/

namespace NetMap

def applyHeader (nm : NetMap) (resp : MapResponseWire) : NetMap :=
  { nm with
    lastSeq := if nm.lastSeq < resp.seq then resp.seq else nm.lastSeq
    sessionHandle := if resp.mapSessionHandle.isEmpty then nm.sessionHandle else resp.mapSessionHandle
    domain := if resp.domain.isEmpty then nm.domain else resp.domain }

def applyNode (nm : NetMap) : Option NodeWire → NetMap × Bool
  | none => (nm, false)
  | some node =>
    let newAddrs := parseAddrs node.addresses
    let addrsChanged := !newAddrs.isEmpty && newAddrs != nm.ourAddrs
    ({ nm with
        ourAddrs := if addrsChanged then newAddrs else nm.ourAddrs
        ourTags := node.tags
        ourKeyExpiry := node.keyExpiry.or nm.ourKeyExpiry
        ourUserId := if node.user ≠ 0 then some node.user else nm.ourUserId }, addrsChanged)

def applyUserProfiles (nm : NetMap) (profiles : List UserProfileWire) : NetMap :=
  { nm with userProfiles :=
      profiles.foldl (fun m (up : UserProfileWire) => m.insert up.id (userProfileFromWire up)) nm.userProfiles }

def applyDerpMap (nm : NetMap) : Option DerpMapWire → NetMap
  | none => nm
  | some dmap => { nm with derpRegions := parseDerpRegions dmap }

def applyPacketFilter (nm : NetMap) : PacketFilterWire → NetMap × Bool
  | .missing => (nm, false)
  | .rules rs =>
    let next := PacketFilter.rules (rs.filterMap filterRuleFromWire)
    if nm.packetFilter ≠ some next then ({ nm with packetFilter := some next }, true) else (nm, false)

def apply (ord : HashOrder NodeKey) (nm : NetMap) (resp : MapResponseWire) : NetMap × NetMapDelta :=
  let nm₁ := nm.applyHeader resp
  let r₂ := nm₁.applyNode resp.node
  let nm₃ := r₂.1.applyUserProfiles resp.userProfiles
  let nm₄ := nm₃.applyDerpMap resp.derpMap
  let r₅ := nm₄.applyPacketFilter resp.packetFilter
  let s := Applying.applyPeerChanges ord resp ⟨r₅.1.toPeerTables, {}⟩
  ({ r₅.1 with toPeerTables := s.tables },
    { toPeerDelta := s.delta
      ourAddrsChanged := r₂.2
      packetFilterChanged := r₅.2
      derpMapChanged := resp.derpMap.isSome
      seq := nm₁.lastSeq })

/-! What each part of `apply` leaves alone. -/

variable (ord : HashOrder NodeKey) (nm : NetMap) (resp : MapResponseWire)

theorem applyNode_keeps (node : Option NodeWire) :
    (nm.applyNode node).1.toPeerTables = nm.toPeerTables ∧ (nm.applyNode node).1.packetFilter = nm.packetFilter ∧
      (nm.applyNode node).1.lastSeq = nm.lastSeq ∧ (nm.applyNode node).1.sessionHandle = nm.sessionHandle := by
  cases node <;> exact ⟨rfl, rfl, rfl, rfl⟩

theorem applyDerpMap_keeps (dmap : Option DerpMapWire) :
    (nm.applyDerpMap dmap).toPeerTables = nm.toPeerTables ∧
      (nm.applyDerpMap dmap).packetFilter = nm.packetFilter ∧
      (nm.applyDerpMap dmap).lastSeq = nm.lastSeq ∧
      (nm.applyDerpMap dmap).sessionHandle = nm.sessionHandle := by
  cases dmap <;> exact ⟨rfl, rfl, rfl, rfl⟩

theorem applyPacketFilter_keeps (pf : PacketFilterWire) :
    (nm.applyPacketFilter pf).1.toPeerTables = nm.toPeerTables ∧ (nm.applyPacketFilter pf).1.lastSeq = nm.lastSeq ∧
      (nm.applyPacketFilter pf).1.sessionHandle = nm.sessionHandle := by
  cases pf with
  | missing => exact ⟨rfl, rfl, rfl⟩
  | rules rs =>
    simp only [applyPacketFilter]
    split <;> exact ⟨rfl, rfl, rfl⟩

theorem apply_peers :
    (nm.apply ord resp).1.toPeerTables = (Applying.applyPeerChanges ord resp ⟨nm.toPeerTables, {}⟩).tables ∧
      (nm.apply ord resp).2.toPeerDelta =
        (Applying.applyPeerChanges ord resp ⟨nm.toPeerTables, {}⟩).delta := by
  have h : ((((nm.applyHeader resp).applyNode resp.node).1.applyUserProfiles resp.userProfiles).applyDerpMap
      resp.derpMap |>.applyPacketFilter resp.packetFilter).1.toPeerTables = nm.toPeerTables := by
    rw [(applyPacketFilter_keeps _ _).1, (applyDerpMap_keeps _ _).1]
    exact (applyNode_keeps _ _).1
  simp only [apply]
  rw [h]
  exact ⟨rfl, rfl⟩

theorem apply_lastSeq : (nm.apply ord resp).1.lastSeq = if nm.lastSeq < resp.seq then resp.seq else nm.lastSeq := by
  simp only [apply]
  rw [(applyPacketFilter_keeps _ _).2.1, (applyDerpMap_keeps _ _).2.2.1]
  exact (applyNode_keeps _ _).2.2.1

theorem apply_delta_seq : (nm.apply ord resp).2.seq = (nm.apply ord resp).1.lastSeq := by
  rw [apply_lastSeq]
  rfl

theorem apply_sessionHandle : (nm.apply ord resp).1.sessionHandle =
      if resp.mapSessionHandle.isEmpty then nm.sessionHandle else resp.mapSessionHandle := by
  simp only [apply]
  rw [(applyPacketFilter_keeps _ _).2.2, (applyDerpMap_keeps _ _).2.2.2]
  exact (applyNode_keeps _ _).2.2.2

theorem apply_packetFilter :
    (nm.apply ord resp).1.packetFilter = (nm.applyPacketFilter resp.packetFilter).1.packetFilter ∧
      (nm.apply ord resp).2.packetFilterChanged = (nm.applyPacketFilter resp.packetFilter).2 := by
  have h : ((((nm.applyHeader resp).applyNode resp.node).1.applyUserProfiles resp.userProfiles).applyDerpMap
      resp.derpMap).packetFilter = nm.packetFilter := by
    rw [(applyDerpMap_keeps _ _).2.1]
    exact (applyNode_keeps _ _).2.1
  simp only [apply]
  cases resp.packetFilter with
  | missing => exact ⟨h, rfl⟩
  | rules rs =>
    simp only [applyPacketFilter]
    rw [h]
    split
    · exact ⟨rfl, rfl⟩
    · exact ⟨h, rfl⟩

end NetMap

end TailscaleVita.Ctl
