import TailscaleVita.HashMap
import TailscaleVita.StdNet
/-!
# CtlTypes — wire frames and netmap records (`ts-control/src/types.rs`, `ts-control/src/netmap.rs`)

Wire records carry the texts the server sent; the records of the netmap carry what was read out of them.
-/
namespace TailscaleVita.Ctl

/-- `[u8; 32]`: the binary form of a `nodekey:<hex>` value. -/
abbrev NodeKey := BitVec 256

abbrev NodeId := Int64

structure PortRangeWire where
  first : BitVec 16
  last : BitVec 16

structure NetPortRangeWire where
  ip : Text
  ports : PortRangeWire

structure FilterRuleWire where
  srcIps : List Text
  dstPorts : List NetPortRangeWire
  ipProto : Bytes

inductive PacketFilterWire where
  | missing
  | rules (rs : List FilterRuleWire)

structure UserProfileWire where
  id : Int64
  loginName : Text
  displayName : Text

structure NodeWire where
  id : NodeId
  user : Int64 := 0
  name : Text := []
  key : Text
  discoKey : Text := []
  addresses : List Text := []
  allowedIps : List Text := []
  homeDerp : BitVec 16 := 0
  derpLegacy : Text := []
  online : Option Bool := none
  endpoints : List Text := []
  tags : List Text := []
  keyExpiry : Option Text := none
  lastSeen : Option Text := none

structure DerpNodeWire where
  name : Text
  regionId : BitVec 16
  hostname : Text
  ipv4 : Text
  ipv6 : Text
  derpPort : BitVec 16
  stunPort : Int32

structure DerpRegionWire where
  regionId : BitVec 16
  regionCode : Text
  regionName : Text
  nodes : List DerpNodeWire

structure DerpMapWire where
  regions : List (Text × DerpRegionWire)

structure PeerChangeWire where
  nodeId : NodeId
  key : Option Text := none
  discoKey : Option Text := none
  homeDerp : Option (BitVec 16) := none
  derpRegionLegacy : Option (BitVec 16) := none
  endpoints : Option (List Text) := none
  online : Option Bool := none
  lastSeen : Option Text := none
  keyExpiry : Option Text := none

structure MapResponseWire where
  mapSessionHandle : Text := []
  seq : Int64 := 0
  keepAlive : Bool := false
  node : Option NodeWire := none
  derpMap : Option DerpMapWire := none
  peers : Option (List NodeWire) := none
  peersChanged : Option (List NodeWire) := none
  peersRemoved : Option (List NodeId) := none
  peersChangedPatch : Option (List PeerChangeWire) := none
  domain : Text := []
  userProfiles : List UserProfileWire := []
  packetFilter : PacketFilterWire := .missing

structure AllowedIp where
  addr : Ipv4Addr
  prefixLen : Nat
  le32 : prefixLen ≤ 32
deriving DecidableEq

structure NetPortRange where
  ip : AllowedIp
  portFirst : BitVec 16
  portLast : BitVec 16
deriving DecidableEq

structure FilterRule where
  srcIps : List AllowedIp
  dstPorts : List NetPortRange
  ipProtocols : Bytes
deriving DecidableEq

inductive PacketFilter where
  | rules (rs : List FilterRule)
deriving DecidableEq

structure PeerSnapshot where
  nodeId : NodeId
  nodeKey : NodeKey
  discoKey : Option NodeKey
  name : Text
  allowedIps : List AllowedIp
  homeDerp : BitVec 16
  online : Bool
  endpoints : List SocketAddr
  lastSeen : Option Text
  keyExpiry : Option Text
deriving DecidableEq

structure DerpNodeSnapshot where
  name : Text
  regionId : BitVec 16
  hostname : Text
  ipv4 : Text
  ipv6 : Text
  derpPort : BitVec 16
  stunPort : Int32

structure DerpRegionSnapshot where
  regionId : BitVec 16
  regionCode : Text
  regionName : Text
  nodes : List DerpNodeSnapshot

structure UserProfile where
  id : Int64
  loginName : Text
  displayName : Text

structure PeerTables where
  peers : HashMap NodeKey PeerSnapshot := ∅
  idToKey : HashMap NodeId NodeKey := ∅

structure NetMap extends PeerTables where
  ourAddrs : List AllowedIp := []
  packetFilter : Option PacketFilter := none
  ourTags : List Text := []
  ourKeyExpiry : Option Text := none
  derpRegions : HashMap (BitVec 16) DerpRegionSnapshot := ∅
  lastSeq : Int64 := 0
  sessionHandle : Text := []
  domain : Text := []
  userProfiles : HashMap Int64 UserProfile := ∅
  ourUserId : Option Int64 := none

structure RekeyedPeer where
  oldKey : NodeKey
  snapshot : PeerSnapshot
deriving DecidableEq

structure PeerDelta where
  upserted : List PeerSnapshot := []
  removed : List NodeKey := []
  rekeyed : List RekeyedPeer := []
  patchesApplied : Nat := 0
  patchesSkippedUnknownNodeId : Nat := 0

structure NetMapDelta extends PeerDelta where
  ourAddrsChanged : Bool := false
  packetFilterChanged : Bool := false
  derpMapChanged : Bool := false
  seq : Int64 := 0

end TailscaleVita.Ctl
