import TailscaleVita.MsPeers
/-!
# MsIndex — the index from disco keys to nodes (`MagicSocketCtl::upsert_peer`, `remove_peer`)

`disco_to_node` is the reverse of the registrations: an upsert drops the entries of its node and adds its own, a
removal drops the entry under the removed peer's key. Two nodes may present one key; the index has room for one of
them, and the other is not put back when the first one goes.
-/
namespace TailscaleVita.Ms

open Function

/-! ## A reverse index -/

section

variable {N D : Type} [DecidableEq N] [DecidableEq D]

def Points (r : N → Option D) (idx : D → Option N) : Prop := ∀ d n, idx d = some n → r n = some d

def Finds (r : N → Option D) (idx : D → Option N) : Prop :=
  ∀ n d, r n = some d → (∀ k, r k = some d → k = n) → idx d = some n

def SoleOther (r : N → Option D) (n m : N) (d : D) : Prop :=
  m ≠ n ∧ r n = some d ∧ r m = some d ∧ ∀ k, r k = some d → k = n ∨ k = m

def indexPut (idx : D → Option N) (n : N) (d : D) (d' : D) : Option N :=
  if d' = d then some n else (idx d').filter (fun k => decide (k ≠ n))

def indexDrop (idx : D → Option N) (d : Option D) (d' : D) : Option N := if d = some d' then none else idx d'

variable {r : N → Option D} {idx : D → Option N}

theorem points_put (h : Points r idx) (n : N) (d : D) : Points (update r n (some d)) (indexPut idx n d) := by
  intro d' k hk
  unfold indexPut at hk
  by_cases hd : d' = d
  · rw [if_pos hd] at hk
    cases hk
    rw [update_self, hd]
  · rw [if_neg hd, Option.filter_eq_some_iff] at hk
    rw [update_of_ne (of_decide_eq_true hk.2)]
    exact h d' k hk.1

theorem points_drop (h : Points r idx) (n : N) : Points (update r n none) (indexDrop idx (r n)) := by
  intro d k hk
  unfold indexDrop at hk
  by_cases hd : r n = some d
  · rw [if_pos hd] at hk
    cases hk
  · rw [if_neg hd] at hk
    have hkd := h d k hk
    have hne : k ≠ n := fun he => hd (he ▸ hkd)
    rwa [update_of_ne hne]

theorem alone_before {n k : N} {x : Option D} {d : D} (hkn : k ≠ n) (hk : r k = some d)
    (halone : ∀ j, update r n x j = some d → j = k) : (∀ j, r j = some d → j = k) ∨ SoleOther r n k d := by
  have hothers : ∀ j, r j = some d → j = n ∨ j = k := fun j hj => by
    by_cases hjn : j = n
    · exact .inl hjn
    · exact .inr (halone j (by rw [update_of_ne hjn, hj]))
  by_cases hn : r n = some d
  · exact .inr ⟨hkn, hn, hk, hothers⟩
  · refine .inl fun j hj => (hothers j hj).resolve_left (fun he => hn (he ▸ hj))

omit [DecidableEq D] in
theorem SoleOther.alone_after {n m : N} {d : D} (h : SoleOther r n m d) {x : Option D} (hx : x ≠ some d) :
    update r n x m = some d ∧ ∀ j, update r n x j = some d → j = m := by
  obtain ⟨hmn, -, hm, hothers⟩ := h
  refine ⟨by rw [update_of_ne hmn, hm], fun j hj => ?_⟩
  by_cases hjn : j = n
  · rw [hjn, update_self] at hj
    exact absurd hj hx
  · rw [update_of_ne hjn] at hj
    exact (hothers j hj).resolve_left hjn

theorem finds_put_iff (hf : Finds r idx) (n : N) (d : D) :
    Finds (update r n (some d)) (indexPut idx n d) ↔
      ∀ m d0, d0 ≠ d → SoleOther r n m d0 → idx d0 = some m := by
  constructor
  · intro h m d0 hd hsole
    obtain ⟨hm, halone⟩ := hsole.alone_after (x := some d) (fun he => hd (Option.some.inj he).symm)
    have hfound := h m d0 hm halone
    rw [indexPut, if_neg hd, Option.filter_eq_some_iff] at hfound
    exact hfound.1
  · intro h k d' hk halone
    unfold indexPut
    by_cases hd : d' = d
    · rw [if_pos hd, halone n (by rw [update_self, hd])]
    · have hkn : k ≠ n := by
        rintro rfl
        rw [update_self] at hk
        exact hd (Option.some.inj hk).symm
      rw [update_of_ne hkn] at hk
      have hfound : idx d' = some k := by
        rcases alone_before hkn hk halone with hbefore | hsole
        · exact hf k d' hk hbefore
        · exact h k d' hd hsole
      rw [if_neg hd, hfound, Option.filter_some, if_pos (decide_eq_true hkn)]

theorem finds_drop_iff (hf : Finds r idx) (n : N) :
    Finds (update r n none) (indexDrop idx (r n)) ↔ ∀ m d, ¬ SoleOther r n m d := by
  constructor
  · intro h m d hsole
    obtain ⟨hm, halone⟩ := hsole.alone_after (x := none) (by simp)
    have hfound := h m d hm halone
    rw [indexDrop, if_pos hsole.2.1] at hfound
    cases hfound
  · intro h k d hk halone
    have hkn : k ≠ n := by
      rintro rfl
      rw [update_self] at hk
      cases hk
    rw [update_of_ne hkn] at hk
    rcases alone_before hkn hk halone with hbefore | hsole
    · have hn : ¬ r n = some d := fun hn => hkn (hbefore n hn).symm
      rw [indexDrop, if_neg hn]
      exact hf k d hk hbefore
    · exact absurd hsole (h k d)

end

/-! ## The index of the socket -/

open Ctl (NodeKey)
open MagicState

variable (s : MagicState)

theorem discoToNode_upsertPeer (ord : Orders) (now : Instant) (n : NodeKey) (d : DiscoKey)
    (endpoints : List SocketAddr) :
    (s.upsertPeer ord now n d endpoints).discoToNode.lookup = indexPut s.discoToNode.lookup n d := by
  funext d'
  unfold MagicState.upsertPeer indexPut
  rw [HashMap.lookup_insert_eq, HashOrder.lookup_retain]

theorem discoToNode_removePeer (n : NodeKey) :
    (s.removePeer n).discoToNode.lookup = indexDrop s.discoToNode.lookup (s.registered n) := by
  funext d'
  unfold MagicState.removePeer indexDrop MagicState.registered
  cases s.peers.lookup n with
  | none => simp
  | some p =>
    simp only [Option.map_some, Option.some.injEq]
    rw [HashMap.lookup_erase_eq]
    exact if_congr eq_comm rfl rfl

theorem discoToNode_mergeEndpoints (d : DiscoKey) (advertised : List SocketAddr) :
    (s.mergeEndpoints d advertised).1.discoToNode = s.discoToNode := by
  unfold MagicState.mergeEndpoints
  split
  · rfl
  · split <;> rfl

theorem discoToNode_learnSource (now : Instant) (n : NodeKey) (src : SocketAddr) :
    (s.learnSource now n src).discoToNode = s.discoToNode := by
  unfold MagicState.learnSource
  split
  · rfl
  · split
    · rfl
    · split <;> rfl

theorem discoToNode_acceptPong (now : Instant) (d : DiscoKey) (src : SocketAddr) (tx : TxId) :
    (s.acceptPong now d src tx).1.discoToNode = s.discoToNode := by
  unfold MagicState.acceptPong
  split
  · rfl
  · split
    · rfl
    · split
      · rfl
      · split <;> rfl

theorem discoToNode_resume (now id : Nat) (s : MagicState) (t : Task) (met : Met) :
    (resume now id s t met).1.discoToNode = s.discoToNode := by
  have hdid := did now id s t met
  generalize resume now id s t met = r at hdid ⊢
  cases hdid with
  | sends => rfl
  | records | passes =>
    simp only [MagicState.recordPing, MagicState.returnPing]
    split <;> rfl
  | answers at' d src tx => exact discoToNode_acceptPong s at' d src tx
  | other hq =>
    generalize r.1 = s' at hq ⊢
    cases hq with
    | kept _ hd => exact hd
    | merged d advertised => exact discoToNode_mergeEndpoints s d advertised
    | learned at' n src => exact discoToNode_learnSource s at' n src

def IndexPoints (s : MagicState) : Prop := Points s.registered s.discoToNode.lookup

def IndexFinds (s : MagicState) : Prop := Finds s.registered s.discoToNode.lookup

/-- The event leaves nobody alone with a disco key under which the index has another node or none. -/
def LeavesFound (s : MagicState) : MagicEvent → Prop
  | .call (.upsertPeer _ n d _) => ∀ m d₀, d₀ ≠ d → SoleOther s.registered n m d₀ → s.discoToNode.lookup d₀ = some m
  | .call (.removePeer n) => ∀ m d, ¬ SoleOther s.registered n m d
  | _ => True

theorem index_step (w : MagicWorld) (e : MagicEvent) :
    (∃ ord n d endpoints, e = .call (.upsertPeer ord n d endpoints) ∧
      (w.step magicsock e).shared.registered = update w.shared.registered n (some d) ∧
      (w.step magicsock e).shared.discoToNode.lookup = indexPut w.shared.discoToNode.lookup n d) ∨
    (∃ n, e = .call (.removePeer n) ∧
      (w.step magicsock e).shared.registered = update w.shared.registered n none ∧
      (w.step magicsock e).shared.discoToNode.lookup = indexDrop w.shared.discoToNode.lookup (w.shared.registered n)) ∨
    (LeavesFound w.shared e ∧ (w.step magicsock e).shared.registered = w.shared.registered ∧
      (w.step magicsock e).shared.discoToNode.lookup = w.shared.discoToNode.lookup) := by
  cases e with
  | wait d => exact .inr (.inr ⟨trivial, rfl, rfl⟩)
  | call request =>
    cases request with
    | upsertPeer ord n d endpoints =>
      exact .inl ⟨ord, n, d, endpoints, rfl, registered_upsertPeer .., discoToNode_upsertPeer ..⟩
    | removePeer n => exact .inr (.inl ⟨n, rfl, registered_removePeer .., discoToNode_removePeer ..⟩)
    | _ => exact .inr (.inr ⟨trivial, rfl, rfl⟩)
  | resume id met =>
    refine .inr (.inr ⟨trivial, registered_ofOthers w rfl, ?_⟩)
    rcases w.step_cases magicsock (.resume id met) with ⟨d, hd⟩ | ⟨_, he, -⟩ | ⟨_, t, _, -, -, hr⟩
    · rw [hd]
    · cases he
    · rw [hr]
      exact congrArg (fun m : HashMap DiscoKey NodeKey => (fun d => m.lookup d)) (discoToNode_resume ..)

theorem indexPoints_step (w : MagicWorld) (e : MagicEvent) (h : IndexPoints w.shared) :
    IndexPoints (w.step magicsock e).shared := by
  unfold IndexPoints
  rcases index_step w e with ⟨ord, n, d, endpoints, -, hr, hd⟩ | ⟨n, -, hr, hd⟩ | ⟨-, hr, hd⟩
  · rw [hr, hd]
    exact points_put h n d
  · rw [hr, hd]
    exact points_drop h n
  · rwa [hr, hd]

theorem indexFinds_step_iff (w : MagicWorld) (e : MagicEvent) (h : IndexFinds w.shared) :
    IndexFinds (w.step magicsock e).shared ↔ LeavesFound w.shared e := by
  unfold IndexFinds
  rcases index_step w e with ⟨ord, n, d, endpoints, rfl, hr, hd⟩ | ⟨n, rfl, hr, hd⟩ | ⟨hok, hr, hd⟩
  · rw [hr, hd]
    exact finds_put_iff h n d
  · rw [hr, hd]
    exact finds_drop_iff h n
  · rw [hr, hd]
    exact iff_of_true h hok

/-- **When the index is the reverse of the registrations.** Over every interleaving of upserts, removals and the other
threads, an entry always points to a node registered with its key. A registered peer that shares its key with nobody is
found under it all along exactly when no upsert and no removal leaves a node alone with a key that the index does not
have for it. -/
theorem disco_index_iff (es : List MagicEvent) :
    IndexPoints (socketAfter es).shared ∧
      ((∀ es₁, es₁ <+: es → IndexFinds (socketAfter es₁).shared) ↔
        Along (World.step magicsock) (fun w e => LeavesFound w.shared e) bound es) := by
  have hpoints : IndexPoints bound.shared := fun d n h => by cases h
  have hfinds : IndexFinds bound.shared := fun n d h => by cases h
  have hkept := run_always_iff indexFinds_step_iff es bound hfinds
  exact ⟨run_keeps (fun w : MagicWorld => IndexPoints w.shared) indexPoints_step es _ hpoints, hkept⟩

/-- **A key passed on and given back is lost**: two nodes present one disco key, and when the first one is removed the
second is not found. -/
theorem shared_disco_key_lost :
    let s := (socketAfter [.call (.upsertPeer byRank 1 7 []), .call (.upsertPeer byRank 2 7 []),
      .call (.removePeer 1)]).shared
    s.registered 2 = some 7 ∧ s.peers.keys = {2} ∧ s.discoToNode.lookup 7 = none ∧ ¬ IndexFinds s := by
  intro s
  have hreg : s.registered 2 = some 7 := by decide
  have hkeys : s.peers.keys = {2} := by decide
  have hnone : s.discoToNode.lookup 7 = none := by decide
  refine ⟨hreg, hkeys, hnone, fun h => ?_⟩
  have hfound : s.discoToNode.lookup 7 = some 2 := h 2 7 hreg fun k hk => by
    obtain ⟨peer, hp, -⟩ := Option.map_eq_some_iff.1 hk
    have hmem := (HashMap.mem_keys_iff s.peers k).2 ⟨peer, hp⟩
    rw [hkeys] at hmem
    exact Finset.mem_singleton.1 hmem
  rw [hnone] at hfound
  cases hfound

end TailscaleVita.Ms
