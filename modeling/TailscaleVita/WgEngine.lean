import TailscaleVita.Cells
import TailscaleVita.Run
import TailscaleVita.WgIndices
import TailscaleVita.WgPolicy
/-!
# WgEngine — the engine and its peer operations (`wg-engine/src/lib.rs`)

BoringTun is a parameter: any state type `τ` and any answers. Two things are asked of it. It puts out something only
for a datagram it has authenticated (the engine calls `decapsulate` without a source address, so there is no cookie
reply), and the packets it has queued are finitely many.
-/
namespace TailscaleVita.Wg

inductive TunnResult where
  | done
  | err
  | writeToNetwork (bytes : Bytes)
  | writeToTunnelV4 (bytes : Bytes)
  | writeToTunnelV6

inductive Outcome where
  | done
  | network (bytes : Bytes)
  | tunnelV4 (bytes : Bytes)
  | tunnelV6
deriving DecidableEq

def Outcome.ofResult : Option TunnResult → Outcome
  | none => .done
  | some .done => .done
  | some .err => .done
  | some (.writeToNetwork b) => .network b
  | some (.writeToTunnelV4 b) => .tunnelV4 b
  | some .writeToTunnelV6 => .tunnelV6

/-- BoringTun, as the engine uses it. A call returns the new state and its result, `none` for a panic. -/
structure Boringtun (τ : Type) where
  new : (staticSecret : BitVec 256) → (pubkey : PublicKey) → (presharedKey : Option (BitVec 256)) →
    (keepalive : Option (BitVec 16)) → (index : BitVec 32) → τ
  decapsulate : τ → Bytes → τ × Option TunnResult
  encapsulate : τ → Bytes → τ × Option TunnResult
  updateTimers : τ → τ × Option TunnResult
  authenticates : τ → Bytes → Bool
  pending : τ → Nat
  authenticates_of_output : ∀ t d, Outcome.ofResult (decapsulate t d).2 ≠ .done → authenticates t d = true
  pending_lt : ∀ t, Outcome.ofResult (decapsulate t []).2 ≠ .done → pending (decapsulate t []).1 < pending t

structure Engine (τ : Type) where
  indices : Indices
  inboundPolicy : InboundPolicy
  nextIdx : BitVec 32
  ourStaticSecret : BitVec 256
  heap : List (PeerCells τ)

namespace Engine

variable {τ : Type} (b : Boringtun τ)

def setTransportAddr (e : Engine τ) (peer : Peer) (addr : TransportAddr) : Engine τ :=
  { e with heap := e.heap.modify peer.ptr (fun c => c.setTransportAddr addr) }

def rebuildPeer (e : Engine τ) (cfg : PeerConfig) : Engine τ :=
  let ourIndex := e.nextIdx
  let tunn := b.new e.ourStaticSecret cfg.pubkey cfg.presharedKey cfg.persistentKeepaliveSecs ourIndex
  let peer : Peer := ⟨e.heap.length, cfg.pubkey, ourIndex, cfg.allowedIps⟩
  { e with
    indices := (e.indices.remove cfg.pubkey).insert peer
    nextIdx := e.nextIdx + 1
    heap := e.heap ++ [⟨cfg.initialEndpoint, none, tunn, ⟨0, 0, none⟩⟩] }

def upsertPeer (e : Engine τ) (cfg : PeerConfig) : Engine τ :=
  match e.indices.byPubkey.lookup cfg.pubkey with
  | some peer =>
    if peer.allowedIps = cfg.allowedIps then
      match cfg.initialEndpoint with
      | some ep => e.setTransportAddr peer ep
      | none => e
    else e.rebuildPeer b cfg
  | none => e.rebuildPeer b cfg

def removePeer (e : Engine τ) (pubkey : PublicKey) : Engine τ := { e with indices := e.indices.remove pubkey }

def setInboundPolicy (e : Engine τ) (policy : InboundPolicy) : Engine τ := { e with inboundPolicy := policy }

def setEndpoint (e : Engine τ) (pubkey : PublicKey) (endpoint : TransportAddr) : Engine τ :=
  match e.indices.byPubkey.lookup pubkey with
  | some peer => e.setTransportAddr peer endpoint
  | none => e

def new (ourStaticSecret : BitVec 256) (peers : List PeerConfig) : Engine τ :=
  peers.foldl (upsertPeer b) ⟨Indices.new, .denyAll, 1, ourStaticSecret, []⟩

structure Wf (e : Engine τ) : Prop where
  coherent : Coherent e.indices e.heap.length
  next : e.nextIdx = BitVec.ofNat 32 (e.heap.length + 1)

@[simp] theorem length_heap_setTransportAddr (e : Engine τ) (p : Peer) (a : TransportAddr) :
    (e.setTransportAddr p a).heap.length = e.heap.length := by
  exact List.length_modify ..

theorem getElem?_setTransportAddr (e : Engine τ) (p : Peer) (a : TransportAddr) (i : Nat) :
    (e.setTransportAddr p a).heap[i]? = if p.ptr = i then (e.heap[i]?).map (fun c => c.setTransportAddr a)
      else e.heap[i]? := by
  unfold setTransportAddr
  rw [List.getElem?_modify]
  by_cases h : p.ptr = i <;> simp [h]

variable {e : Engine τ}

theorem wf_setTransportAddr (h : e.Wf) (p : Peer) (a : TransportAddr) : (e.setTransportAddr p a).Wf := by
  refine ⟨?_, ?_⟩
  · rw [length_heap_setTransportAddr]
    exact h.coherent
  · rw [length_heap_setTransportAddr]
    exact h.next

theorem wf_rebuildPeer (h : e.Wf) (cfg : PeerConfig) : (e.rebuildPeer b cfg).Wf := by
  have hfree : (e.indices.remove cfg.pubkey).byPubkey.lookup cfg.pubkey = none := by
    rw [byPubkey_remove, if_pos rfl]
  refine ⟨?_, ?_⟩
  · simp only [rebuildPeer, List.length_append, List.length_singleton]
    exact insert_coherent (remove_coherent h.coherent cfg.pubkey) _ rfl h.next hfree
  · simp only [rebuildPeer, List.length_append, List.length_singleton]
    rw [h.next]
    apply BitVec.eq_of_toNat_eq
    simp

theorem wf_upsertPeer (h : e.Wf) (cfg : PeerConfig) : (e.upsertPeer b cfg).Wf := by
  unfold upsertPeer
  split
  · split
    · split
      · exact wf_setTransportAddr h _ _
      · exact h
    · exact wf_rebuildPeer b h cfg
  · exact wf_rebuildPeer b h cfg

theorem wf_removePeer (h : e.Wf) (k : PublicKey) : (e.removePeer k).Wf :=
  ⟨remove_coherent h.coherent k, h.next⟩

theorem wf_setEndpoint (h : e.Wf) (k : PublicKey) (a : TransportAddr) : (e.setEndpoint k a).Wf := by
  unfold setEndpoint
  split
  · exact wf_setTransportAddr h _ _
  · exact h

theorem wf_new (secret : BitVec 256) (peers : List PeerConfig) : (new b secret peers).Wf := by
  have h0 : (⟨Indices.new, .denyAll, 1, secret, []⟩ : Engine τ).Wf := ⟨Coherent.new, rfl⟩
  exact run_keeps Wf (fun _ cfg h => wf_upsertPeer b h cfg) peers _ h0

end Engine

end TailscaleVita.Wg
