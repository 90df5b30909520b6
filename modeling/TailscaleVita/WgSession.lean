import TailscaleVita.WgReach
/-!
# WgSession — what an upsert leaves of a session (`Engine::upsert_peer`, `wg-engine/src/lib.rs`)

A live peer's session is its `Tunn`, its index, the authenticated source and the counters. An upsert compares the route
lists as they are written: an equal list leaves the session, any other list builds a new one, also when it names the
same routes.
-/
namespace TailscaleVita.Wg

def SameRoutes (l l' : List Ipv4Cidr) : Prop := ∀ c, c ∈ l ↔ c ∈ l'

section

variable {τ : Type} (b : Boringtun τ)

/-- The session of `p` goes on in `e'`: its key leads to the same cells under the same index, and these hold the
`Tunn`, the authenticated source and the counters they held. -/
def KeepsSession (e e' : Engine τ) (p : Peer) : Prop :=
  ∃ q, e'.indices.byPubkey.lookup p.pubkey = some q ∧ q.ptr = p.ptr ∧ q.ourIndex = p.ourIndex ∧
    ∀ c, e.heap[p.ptr]? = some c →
      ∃ c', e'.heap[p.ptr]? = some c' ∧ c'.tunn = c.tunn ∧ c'.authSrc = c.authSrc ∧ c'.stats = c.stats

def KeepsLookup (e e' : Engine τ) : Prop := ∀ ip, e'.indices.byIp.lookup ip = e.indices.byIp.lookup ip

theorem keepsSession_of_indices {e e' : Engine τ} {p : Peer} (hp : e.indices.Live p) (hix : e'.indices = e.indices)
    (hheap : ∀ c, e.heap[p.ptr]? = some c →
      ∃ c', e'.heap[p.ptr]? = some c' ∧ c'.tunn = c.tunn ∧ c'.authSrc = c.authSrc ∧ c'.stats = c.stats) :
    KeepsSession e e' p ∧ KeepsLookup e e' := by
  refine ⟨⟨p, ?_, rfl, rfl, hheap⟩, fun ip => ?_⟩
  · rwa [hix]
  · rw [hix]

theorem upsertPeer_keeps {e : Engine τ} {p : Peer} (hp : e.indices.Live p) {cfg : PeerConfig}
    (hk : cfg.pubkey = p.pubkey) (hips : cfg.allowedIps = p.allowedIps) :
    KeepsSession e (e.upsertPeer b cfg) p ∧ KeepsLookup e (e.upsertPeer b cfg) := by
  have hfound : e.indices.byPubkey.lookup cfg.pubkey = some p := by
    rwa [hk]
  unfold Engine.upsertPeer
  rw [hfound]
  simp only
  rw [if_pos hips.symm]
  cases cfg.initialEndpoint with
  | none => exact keepsSession_of_indices hp rfl (fun c hc => ⟨c, hc, rfl, rfl, rfl⟩)
  | some ep =>
    refine keepsSession_of_indices hp rfl (fun c hc => ⟨c.setTransportAddr ep, ?_, rfl, rfl, rfl⟩)
    rw [Engine.getElem?_setTransportAddr, if_pos rfl, hc]
    rfl

theorem ptr_rebuildPeer (e : Engine τ) (cfg : PeerConfig) {q : Peer}
    (hq : (e.rebuildPeer b cfg).indices.byPubkey.lookup cfg.pubkey = some q) : q.ptr = e.heap.length := by
  simp only [Engine.rebuildPeer, Indices.insert, HashMap.lookup_insert_eq, if_pos] at hq
  rw [← Option.some.inj hq]

/-- **When an upsert keeps the session.** In every engine reached, an upsert under a live peer's key leaves the `Tunn`,
the index, the authenticated source, the counters and every route lookup exactly when its route list is the peer's own
list, in the same order. -/
theorem upsert_keeps_session_iff (secret : BitVec 256) (peers : List PeerConfig) (es : List EngineEvent) (p : Peer)
    (hp : (reached b secret peers es).indices.Live p) (cfg : PeerConfig) (hk : cfg.pubkey = p.pubkey) :
    (KeepsSession (reached b secret peers es) ((reached b secret peers es).upsertPeer b cfg) p ∧
      KeepsLookup (reached b secret peers es) ((reached b secret peers es).upsertPeer b cfg)) ↔
      cfg.allowedIps = p.allowedIps := by
  have hwf := wf_reached b secret peers es
  generalize reached b secret peers es = e at hp hwf ⊢
  refine ⟨fun h => ?_, fun h => upsertPeer_keeps b hp hk h⟩
  by_contra hne
  obtain ⟨⟨q, hq, hptr, -, -⟩, -⟩ := h
  have hrebuilt : e.upsertPeer b cfg = e.rebuildPeer b cfg := by
    unfold Engine.upsertPeer
    rw [hk, show e.indices.byPubkey.lookup p.pubkey = some p from hp]
    simp only
    rw [if_neg (Ne.symm hne)]
  rw [hrebuilt, ← hk] at hq
  have hnew := ptr_rebuildPeer b e cfg hq
  have hold := hwf.coherent.ptr_lt p hp
  omega

end

theorem upsert_keeps_session_roamed :
    let routes : List Ipv4Cidr := [⟨Ipv4Addr.new 10 0 0 1, 32, by decide⟩, ⟨Ipv4Addr.new 192 168 1 0, 24, by decide⟩]
    let e := reached clearTunn 0 [⟨7, none, none, routes, none⟩] []
    KeepsSession e (e.upsertPeer clearTunn ⟨7, none, none, routes, some (.derp 1 7)⟩) ⟨0, 7, 1, routes⟩ := by
  intro routes e
  have hlive : e.indices.Live ⟨0, 7, 1, routes⟩ := by decide
  exact ((upsert_keeps_session_iff clearTunn 0 [⟨7, none, none, routes, none⟩] [] ⟨0, 7, 1, routes⟩ hlive
    ⟨7, none, none, routes, some (.derp 1 7)⟩ rfl).2 rfl).1

/-- **The same routes in another order end the session.** -/
theorem upsert_reordered_rebuilds :
    let routes : List Ipv4Cidr := [⟨Ipv4Addr.new 10 0 0 1, 32, by decide⟩, ⟨Ipv4Addr.new 192 168 1 0, 24, by decide⟩]
    let e := reached clearTunn 0 [⟨7, none, none, routes, none⟩] []
    let e' := e.upsertPeer clearTunn ⟨7, none, none, routes.reverse, none⟩
    SameRoutes routes.reverse routes ∧ e.indices.Live ⟨0, 7, 1, routes⟩ ∧
      e'.indices.byPubkey.lookup 7 = some ⟨1, 7, 2, routes.reverse⟩ ∧ ¬ KeepsSession e e' ⟨0, 7, 1, routes⟩ := by
  intro routes e e'
  have hnew : e'.indices.byPubkey.lookup 7 = some ⟨1, 7, 2, routes.reverse⟩ := by decide
  refine ⟨fun c => List.mem_reverse, by decide, hnew, ?_⟩
  rintro ⟨q, hq, hptr, -, -⟩
  have hsame : some q = some ⟨1, 7, 2, routes.reverse⟩ := hq.symm.trans hnew
  rw [Option.some.inj hsame] at hptr
  cases hptr

end TailscaleVita.Wg
