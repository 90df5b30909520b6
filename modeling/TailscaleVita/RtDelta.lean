import TailscaleVita.CtlMap
import TailscaleVita.CtlNodeTable
import TailscaleVita.Replay
import TailscaleVita.WgReach
/-!
# RtDelta — pushing a netmap delta into the engine (`tailscale-vita/src/runtime.rs`)
-/
namespace TailscaleVita.Rt

open Ctl (NodeKey AllowedIp PeerSnapshot PacketFilter NetMap NetMapSnapshot MapResponseWire
  snapshotOf)
open Wg (Engine Boringtun Ipv4Cidr PeerConfig)

def cidrOf (a : AllowedIp) : Ipv4Cidr := ⟨a.addr, a.prefixLen, a.le32⟩

def engineAllowedIps (list : List AllowedIp) : List Ipv4Cidr :=
  (list.filter (fun a => decide (0 < a.prefixLen))).map cidrOf

def engineRule (rule : Ctl.FilterRule) : Wg.FilterRule where
  srcIps := rule.srcIps.map cidrOf
  dstPorts := rule.dstPorts.map (fun dst => ⟨cidrOf dst.ip, dst.portFirst, dst.portLast⟩)
  ipProtocols := rule.ipProtocols

def enginePacketFilter : PacketFilter → Wg.InboundPolicy
  | .rules rs => .rules (rs.map engineRule)

def relayRegion (ourHome : BitVec 16) (p : PeerSnapshot) : BitVec 16 := if p.homeDerp ≠ 0 then p.homeDerp else ourHome

def peerConfig (ourHome : BitVec 16) (p : PeerSnapshot) : PeerConfig :=
  let region := relayRegion ourHome p
  { pubkey := p.nodeKey
    presharedKey := none
    persistentKeepaliveSecs := some 25
    allowedIps := engineAllowedIps p.allowedIps
    initialEndpoint := if region ≠ 0 then some (.derp region p.nodeKey) else none }

section

variable {τ : Type} (b : Boringtun τ)

def pushPolicy (e : Engine τ) (snap : NetMapSnapshot) : Engine τ :=
  if snap.delta.packetFilterChanged then
    match snap.packetFilter with
    | some policy => e.setInboundPolicy (enginePacketFilter policy)
    | none => e
  else e

def pushDeltaToEngine (e : Engine τ) (snap : NetMapSnapshot) (ourHome : BitVec 16) : Engine τ :=
  let e := pushPolicy e snap
  let e := snap.delta.upserted.foldl (fun e p => e.upsertPeer b (peerConfig ourHome p)) e
  let e := snap.delta.removed.foldl (fun e k => e.removePeer k) e
  snap.delta.rekeyed.foldl (fun e r => (e.removePeer r.oldKey).upsertPeer b (peerConfig ourHome r.snapshot)) e

theorem pushDelta_keeps (inv : Engine τ → Prop) (hup : ∀ e cfg, inv e → inv (e.upsertPeer b cfg))
    (hrm : ∀ e k, inv e → inv (e.removePeer k)) {e : Engine τ} {snap : NetMapSnapshot} (h : inv (pushPolicy e snap))
    (home : BitVec 16) : inv (pushDeltaToEngine b e snap home) := by
  have hups : inv (snap.delta.upserted.foldl (fun e p => e.upsertPeer b (peerConfig home p)) (pushPolicy e snap)) :=
    run_keeps inv (fun e p => hup e (peerConfig home p)) _ _ h
  have hdels := run_keeps inv hrm snap.delta.removed _ hups
  exact run_keeps inv (fun e r hi => hup _ (peerConfig home r.snapshot) (hrm e r.oldKey hi)) snap.delta.rekeyed _ hdels

structure Session (τ : Type) where
  engine : Engine τ
  netmap : NetMap

/-- A frame, the order its hash maps are walked in, and our home region when it arrives. -/
structure Frame where
  ord : HashOrder NodeKey
  resp : MapResponseWire
  ourHome : BitVec 16

def Session.step (s : Session τ) (f : Frame) : Session τ where
  engine := pushDeltaToEngine b s.engine (snapshotOf (s.netmap.apply f.ord f.resp)) f.ourHome
  netmap := (s.netmap.apply f.ord f.resp).1

def Session.start (secret : BitVec 256) : Session τ := ⟨Engine.new b secret [], {}⟩

end

end TailscaleVita.Rt
