import TailscaleVita.CtlTypes
/-!
# MsState — the state behind magicsock's lock (`ts-magicsock/src/lib.rs`)

One mutex guards everything the socket knows of its peers. Each definition below is what the source does under one
acquisition of it. Times are milliseconds of the monotonic clock; a difference of instants is zero when the clock was
read late, as `duration_since` is.
-/
namespace TailscaleVita.Ms

open Ctl (NodeKey)

abbrev DiscoKey := BitVec 256

abbrev TxId := BitVec 96

abbrev Instant := Nat

def pingInterval : Nat := 5000
def heartbeatInterval : Nat := 3000
def aliveTtl : Nat := 30000
def maxPeerPaths : Nat := 24
def learnedSrcTtl : Nat := 600000
def cmmTriggerAfter : Nat := 10000
def cmmRateLimit : Nat := 5000
def cmmMaxEndpoints : Nat := 16

structure PathState where
  lastPingAt : Option Instant := none
  lastPongAt : Option Instant := none
  outstandingTxId : Option TxId := none
  rtt : Option Nat := none
  lastSrcPingAt : Option Instant := none
deriving DecidableEq

def PathState.alive (st : PathState) (now : Instant) : Bool :=
  match st.lastPongAt with
  | some t => decide (now - t < aliveTtl)
  | none => false

def PathState.answer (path : PathState) (now : Instant) : PathState :=
  { path with
    lastPongAt := some now
    rtt := some ((path.lastPingAt.map (fun t => now - t)).getD 0)
    outstandingTxId := none }

structure PeerState where
  discoPub : DiscoKey
  endpoints : List SocketAddr
  paths : HashMap SocketAddr PathState

structure PingInflight where
  sentAt : Instant
  target : SocketAddr
  call : Nat
deriving DecidableEq

structure MagicState where
  peers : HashMap NodeKey PeerState := ∅
  discoToNode : HashMap DiscoKey NodeKey := ∅
  pingOutstanding : HashMap TxId PingInflight := ∅
  localEndpoints : List SocketAddr := []
  lastCmmSentAt : HashMap NodeKey Instant := ∅
  cmmPending : List (NodeKey × Bytes) := []
  channels : HashMap Nat (SocketAddr × Nat) := ∅

structure Orders where
  nodes : HashOrder NodeKey
  addrs : HashOrder SocketAddr
  discos : HashOrder DiscoKey

def pathOrNew (paths : HashMap SocketAddr PathState) (addr : SocketAddr) : PathState := (paths.lookup addr).getD {}

def ensurePath (paths : HashMap SocketAddr PathState) (addr : SocketAddr) : HashMap SocketAddr PathState :=
  paths.insert addr (pathOrNew paths addr)

def minByKey {α : Type} (key : α → Nat) : List α → Option α
  | [] => none
  | a :: l =>
    match minByKey key l with
    | none => some a
    | some b => if key a ≤ key b then some a else some b

variable {α : Type}

theorem minByKey_mem (key : α → Nat) : ∀ {l : List α} {a : α}, minByKey key l = some a → a ∈ l
  | b :: l, a, h => by
    unfold minByKey at h
    split at h
    · cases h
      exact List.mem_cons_self
    next c hc =>
      split at h
      · cases h
        exact List.mem_cons_self
      · cases h
        exact List.mem_cons_of_mem b (minByKey_mem key hc)

theorem minByKey_le (key : α → Nat) : ∀ {l : List α} {a : α}, minByKey key l = some a →
    ∀ b ∈ l, key a ≤ key b
  | c :: l, a, h, b, hb => by
    unfold minByKey at h
    split at h
    next hnone =>
      cases h
      -- only the empty list has no least element
      cases l with
      | nil => rw [List.mem_singleton.1 hb]
      | cons d l =>
        unfold minByKey at hnone
        split at hnone
        · cases hnone
        · split at hnone <;> cases hnone
    next d hd =>
      have hleast := minByKey_le key hd
      by_cases hcd : key c ≤ key d
      · rw [if_pos hcd] at h
        cases h
        rcases List.mem_cons.1 hb with rfl | hb
        · exact Nat.le_refl _
        · exact Nat.le_trans hcd (hleast b hb)
      · rw [if_neg hcd] at h
        cases h
        rcases List.mem_cons.1 hb with rfl | hb
        · omega
        · exact hleast b hb

theorem minByKey_isSome (key : α → Nat) {l : List α} (h : l ≠ []) : ∃ a, minByKey key l = some a := by
  cases l with
  | nil => exact absurd rfl h
  | cons c l =>
    unfold minByKey
    split
    · exact ⟨c, rfl⟩
    · split <;> exact ⟨_, rfl⟩

theorem exists_minByKey (key : α → Nat) {l : List α} (h : l ≠ []) :
    ∃ a, minByKey key l = some a ∧ a ∈ l ∧ ∀ b ∈ l, key a ≤ key b := by
  obtain ⟨a, ha⟩ := minByKey_isSome key h
  exact ⟨a, ha, minByKey_mem key ha, minByKey_le key ha⟩

namespace MagicState

def keepsPath (endpoints : List SocketAddr) (now : Instant) (addr : SocketAddr) (st : PathState) : Bool :=
  decide (addr ∈ endpoints) ||
    match st.lastSrcPingAt with
    | some t => decide (now - t < learnedSrcTtl)
    | none => false

def upsertPaths (ord : Orders) (now : Instant) (discoPub : DiscoKey) (endpoints : List SocketAddr)
    (peer : PeerState) : PeerState :=
  let paths := ord.addrs.retain (keepsPath endpoints now) peer.paths
  let preserved := (ord.addrs.order paths.keys).filter (fun a => decide (a ∉ endpoints))
  { discoPub := discoPub
    endpoints := endpoints ++ preserved
    paths := endpoints.foldl ensurePath paths }

def upsertPeer (s : MagicState) (ord : Orders) (now : Instant) (nodePub : NodeKey) (discoPub : DiscoKey)
    (endpoints : List SocketAddr) : MagicState :=
  -- a stale mapping for this node is dropped first
  let discoToNode := ord.discos.retain (fun _ n => decide (n ≠ nodePub)) s.discoToNode
  let entry := (s.peers.lookup nodePub).getD ⟨discoPub, [], ∅⟩
  { s with
    discoToNode := discoToNode.insert discoPub nodePub
    peers := s.peers.insert nodePub (upsertPaths ord now discoPub endpoints entry) }

def removePeer (s : MagicState) (nodePub : NodeKey) : MagicState :=
  match s.peers.lookup nodePub with
  | some p => { s with peers := s.peers.erase nodePub, discoToNode := s.discoToNode.erase p.discoPub }
  | none => s

def rttKey (peer : PeerState) (addr : SocketAddr) : Nat := ((peer.paths.lookup addr).bind PathState.rtt).getD 60000

def aliveAddrs (peer : PeerState) (ord : Orders) (now : Instant) : List SocketAddr :=
  (ord.addrs.order peer.paths.keys).filter (fun a => (peer.paths.lookup a).any (fun st => st.alive now))

def aliveEndpoint (s : MagicState) (ord : Orders) (now : Instant) (nodePub : NodeKey) : Option SocketAddr :=
  match s.peers.lookup nodePub with
  | none => none
  | some peer => minByKey (rttKey peer) (aliveAddrs peer ord now)

def setPeer (s : MagicState) (nodePub : NodeKey) (peer : PeerState) : MagicState :=
  { s with peers := s.peers.insert nodePub peer }

def learnSource (s : MagicState) (now : Instant) (nodePub : NodeKey) (src : SocketAddr) : MagicState :=
  match s.peers.lookup nodePub with
  | none => s
  | some peer =>
    match peer.paths.lookup src with
    | some path =>
      s.setPeer nodePub { peer with paths := peer.paths.insert src { path with lastSrcPingAt := some now } }
    | none =>
      if peer.paths.keys.card < maxPeerPaths then
        s.setPeer nodePub
          { peer with
            endpoints := if src ∈ peer.endpoints then peer.endpoints else peer.endpoints ++ [src]
            paths := peer.paths.insert src { lastSrcPingAt := some now } }
      else s

def returnPing (s : MagicState) (now : Instant) (txId : TxId) : MagicState :=
  match s.pingOutstanding.lookup txId with
  | some inflight =>
    { s with
      pingOutstanding := s.pingOutstanding.erase txId
      channels := s.channels.insert inflight.call (inflight.target, now - inflight.sentAt) }
  | none => s

def acceptPong (s : MagicState) (now : Instant) (senderPub : DiscoKey) (src : SocketAddr) (txId : TxId) :
    MagicState × Option NodeKey :=
  match s.discoToNode.lookup senderPub with
  | none => (s, none)
  | some nodePub =>
    match s.peers.lookup nodePub with
    | none => (s, none)
    | some peer =>
      match peer.paths.lookup src with
      | none => (s, none)
      | some path =>
        if path.outstandingTxId = some txId then
          (s.setPeer nodePub { peer with paths := peer.paths.insert src (path.answer now) }, some nodePub)
        else (s, none)

def mergeEndpoint (peer : PeerState) (ep : SocketAddr) : PeerState :=
  { peer with
    endpoints := if ep ∈ peer.endpoints then peer.endpoints else peer.endpoints ++ [ep]
    paths := ensurePath peer.paths ep }

def mergeEndpoints (s : MagicState) (senderPub : DiscoKey) (advertised : List SocketAddr) :
    MagicState × Option (NodeKey × DiscoKey) :=
  match s.discoToNode.lookup senderPub with
  | none => (s, none)
  | some nodePub =>
    match s.peers.lookup nodePub with
    | none => (s, none)
    | some peer => (s.setPeer nodePub (advertised.foldl mergeEndpoint peer), some (nodePub, peer.discoPub))

def pathNeedsPing (path : Option PathState) (now : Instant) : Bool :=
  match path with
  | none => true
  | some p =>
    let interval := if p.alive now then heartbeatInterval else pingInterval
    match p.lastPingAt with
    | some t => decide (interval ≤ now - t)
    | none => true

def toPing (s : MagicState) (ord : Orders) (now : Instant) : List (NodeKey × DiscoKey × SocketAddr) :=
  (ord.nodes.order s.peers.keys).flatMap fun nodePub =>
    match s.peers.lookup nodePub with
    | none => []
    | some peer =>
      (peer.endpoints.filter (fun addr => pathNeedsPing (peer.paths.lookup addr) now)).map
        (fun addr => (nodePub, peer.discoPub, addr))

def recordPing (s : MagicState) (now : Instant) (nodePub : NodeKey) (addr : SocketAddr) (txId : TxId) : MagicState :=
  match s.peers.lookup nodePub with
  | none => s
  | some peer =>
    s.setPeer nodePub
      { peer with
        paths := peer.paths.insert addr
          { pathOrNew peer.paths addr with lastPingAt := some now, outstandingTxId := some txId } }

def pathStates (peer : PeerState) (ord : Orders) : List PathState := ord.addrs.values peer.paths

def needsCmm (s : MagicState) (ord : Orders) (now : Instant) (nodePub : NodeKey) (peer : PeerState) : Bool :=
  let states := pathStates peer ord
  !peer.endpoints.isEmpty && !states.any (fun p => p.alive now) &&
    (match (states.filterMap PathState.lastPingAt).min? with
     | some t => decide (cmmTriggerAfter ≤ now - t)
     | none => false) &&
    !(match s.lastCmmSentAt.lookup nodePub with
      | some t => decide (now - t < cmmRateLimit)
      | none => false)

def toCmm (s : MagicState) (ord : Orders) (now : Instant) : List SocketAddr × List (NodeKey × DiscoKey) :=
  if s.localEndpoints.isEmpty then ([], [])
  else
    (s.localEndpoints.take cmmMaxEndpoints,
      (ord.nodes.order s.peers.keys).filterMap fun nodePub =>
        match s.peers.lookup nodePub with
        | none => none
        | some peer => if s.needsCmm ord now nodePub peer then some (nodePub, peer.discoPub) else none)

def queueCmm (s : MagicState) (now : Instant) (nodePub : NodeKey) (bytes : Bytes) : MagicState :=
  { s with
    lastCmmSentAt := s.lastCmmSentAt.insert nodePub now
    cmmPending := s.cmmPending ++ [(nodePub, bytes)] }

inductive MagicError where
  | unknownPeer
  | noEndpoints
  | pingTimeout
  | sendFailed
deriving DecidableEq

def pickTarget (s : MagicState) (ord : Orders) (now : Instant) (nodePub : NodeKey) :
    Except MagicError (SocketAddr × DiscoKey) :=
  match s.peers.lookup nodePub with
  | none => .error .unknownPeer
  | some peer =>
    match (aliveAddrs peer ord now).head?.or peer.endpoints.head? with
    | some target => .ok (target, peer.discoPub)
    | none => .error .noEndpoints

def registerPing (s : MagicState) (now : Instant) (txId : TxId) (target : SocketAddr) (call : Nat) : MagicState :=
  { s with pingOutstanding := s.pingOutstanding.insert txId ⟨now, target, call⟩ }

def unregisterPing (s : MagicState) (txId : TxId) : MagicState :=
  { s with pingOutstanding := s.pingOutstanding.erase txId }

end MagicState

def addrRank : SocketAddr → Nat
  | .v4 ip port => 2 * (ip.toNat * 2 ^ 16 + port.toNat)
  | .v6 ip port flowinfo scopeId =>
    2 * (((ip.toNat * 2 ^ 16 + port.toNat) * 2 ^ 32 + flowinfo.toNat) * 2 ^ 32 + scopeId.toNat) + 1

theorem addrRank_injective : Function.Injective addrRank := by
  intro a a' h
  cases a with
  | v4 ip port =>
    cases a' with
    | v4 ip' port' =>
      simp only [addrRank] at h
      have hip : ip.toNat = ip'.toNat := by omega
      have hport : port.toNat = port'.toNat := by omega
      rw [BitVec.eq_of_toNat_eq hip, BitVec.eq_of_toNat_eq hport]
    | v6 ip' port' flowinfo' scopeId' =>
      simp only [addrRank] at h
      omega
  | v6 ip port flowinfo scopeId =>
    cases a' with
    | v4 ip' port' =>
      simp only [addrRank] at h
      omega
    | v6 ip' port' flowinfo' scopeId' =>
      simp only [addrRank] at h
      have hip : ip.toNat = ip'.toNat := by omega
      have hport : port.toNat = port'.toNat := by omega
      have hflow : flowinfo.toNat = flowinfo'.toNat := by omega
      have hscope : scopeId.toNat = scopeId'.toNat := by omega
      rw [BitVec.eq_of_toNat_eq hip, BitVec.eq_of_toNat_eq hport, BitVec.eq_of_toNat_eq hflow,
        BitVec.eq_of_toNat_eq hscope]

theorem toNat_key_injective (a b : BitVec 256) (h : a.toNat = b.toNat) : a = b := BitVec.eq_of_toNat_eq h

def byRank : Orders where
  nodes := HashOrder.byRank BitVec.toNat toNat_key_injective
  addrs := HashOrder.byRank addrRank addrRank_injective
  discos := HashOrder.byRank BitVec.toNat toNat_key_injective

end TailscaleVita.Ms
