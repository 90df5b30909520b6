import TailscaleVita.RtPass
/-!
# RtSelf — what the loop configures once (`run_event_loop`, `build_derp_map`)

The DERP mux gets its region map, and the netstack its addresses, from the snapshots the loop handles. Each is set
under a flag of the loop, by the first snapshot that has something to set, and the flags outlive every session.
-/
namespace TailscaleVita.Rt

open Ctl (NodeKey NetMap NetMapSnapshot AllowedIp MapClient DerpNodeSnapshot DerpRegionSnapshot)
open Wg (Boringtun)

/-! ## The consumers -/

structure DerpNodeAddr where
  regionId : BitVec 16
  name : Text
  hostname : Text
  ipv4 : Text
  ipv6 : Text
  derpPort : BitVec 16
deriving DecidableEq

abbrev DerpMap := HashMap (BitVec 16) (List DerpNodeAddr)

def derpNodeAddr (n : DerpNodeSnapshot) : DerpNodeAddr :=
  ⟨n.regionId, n.name, n.hostname, n.ipv4, n.ipv6, n.derpPort⟩

def buildDerpMap (ord : HashOrder (BitVec 16)) (nm : NetMap) : DerpMap :=
  ord.mapValues (fun region => region.nodes.map derpNodeAddr) nm.derpRegions

structure SmolIpv4Cidr where
  addr : Ipv4Addr
  prefixLen : Nat
deriving DecidableEq

def localCidr (a : AllowedIp) : SmolIpv4Cidr := ⟨a.addr, a.prefixLen⟩

def setLocalAddrs (capacity : Nat) (addrs : List SmolIpv4Cidr) : List SmolIpv4Cidr := addrs.take capacity

structure LocalAddrs where
  stack : List SmolIpv4Cidr := []
  tailnetIp : Option Ipv4Addr := none
deriving DecidableEq

def localAddrs (capacity : Nat) (ourAddrs : List AllowedIp) : LocalAddrs where
  stack := setLocalAddrs capacity (ourAddrs.map localCidr)
  tailnetIp := ourAddrs.head?.map AllowedIp.addr

structure SelfConfig where
  derpMap : Latch DerpMap := ⟨∅, false⟩
  addrs : Latch LocalAddrs := ⟨{}, false⟩

def SelfConfig.handle (c : SelfConfig) (capacity : Nat) (ord : HashOrder (BitVec 16)) (nm : NetMap)
    (snap : NetMapSnapshot) : SelfConfig where
  derpMap := c.derpMap.offer (decide (0 < snap.derpRegionCount)) (buildDerpMap ord nm)
  addrs := c.addrs.offer (!snap.ourAddrs.isEmpty) (localAddrs capacity snap.ourAddrs)

def hasRegion (nm : NetMap) : Bool := decide (0 < nm.derpRegions.keys.card)

def hasAddr (nm : NetMap) : Bool := !nm.ourAddrs.isEmpty

section

variable {τ : Type} (b : Boringtun τ)

structure Configured (τ : Type) where
  loop : LoopState τ
  self : SelfConfig := {}

def Configured.step (capacity : Nat) (s : Configured τ) (e : Pass × HashOrder (BitVec 16)) : Configured τ where
  loop := s.loop.step b e.1
  self := match s.loop.heard e.1 with
    | some (m, snap) => s.self.handle capacity e.2 m.netmap snap
    | none => s.self

/-- The consumers have what the netmap says, where it says something. -/
structure SelfConfig.Tracks (c : SelfConfig) (capacity : Nat) (ord : HashOrder (BitVec 16)) (nm : NetMap) : Prop where
  derpMap : hasRegion nm = true → c.derpMap.value = buildDerpMap ord nm
  addrs : hasAddr nm = true → c.addrs.value = localAddrs capacity nm.ourAddrs

end

open Ctl (nodeKeyOrder)

end TailscaleVita.Rt
