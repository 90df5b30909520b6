import TailscaleVita.HashMap
import TailscaleVita.Run
/-!
# Replay — a change log replayed in another order

A map is changed entry by entry: values set, keys deleted, values moved to another key. The log keeps the three kinds
apart, and a second map replays every set, then every deletion, then every move. `Tracks` is what the log knows of the
map while the changes are made, provided no value is set under a new key and no key deleted once a value has been
moved. The replay then reproduces the map exactly when no deleted key came back by other means than a move.
-/
namespace TailscaleVita

open Function List

structure ChangeLog (K V : Type) where
  sets : List (K × V)
  dels : List K
  moves : List (K × K × V)

def Touched {K V : Type} (moves : List (K × K × V)) (k : K) : Prop := ∃ m ∈ moves, k = m.1 ∨ k = m.2.1

theorem not_touched_nil {K V : Type} (k : K) : ¬ Touched ([] : List (K × K × V)) k := fun ⟨_, hm, _⟩ => by cases hm

section

variable {K V : Type} [DecidableEq K]

def replaySets (sets : List (K × V)) (f : K → Option V) : K → Option V :=
  sets.foldl (fun f s => update f s.1 (some s.2)) f

def replayDels (dels : List K) (f : K → Option V) : K → Option V :=
  dels.foldl (fun f k => update f k none) f

def replayMoves (moves : List (K × K × V)) (f : K → Option V) : K → Option V :=
  moves.foldl (fun f m => update (update f m.1 none) m.2.1 (some m.2.2)) f

def ChangeLog.replay (l : ChangeLog K V) (f : K → Option V) : K → Option V :=
  replayMoves l.moves (replayDels l.dels (replaySets l.sets f))

theorem replaySets_ne_none : ∀ (sets : List (K × V)) (f : K → Option V) (k : K),
    replaySets sets f k ≠ none ↔ k ∈ sets.map Prod.fst ∨ f k ≠ none
  | [], _, _ => by simp [replaySets]
  | s :: sets, f, k => by
    have ih := replaySets_ne_none sets (update f s.1 (some s.2)) k
    simp only [replaySets, foldl_cons, map_cons, mem_cons] at ih ⊢
    rw [ih]
    by_cases hk : k = s.1
    · subst hk
      simp
    · simp [hk]

theorem replayDels_apply : ∀ (dels : List K) (f : K → Option V) (k : K),
    replayDels dels f k = if k ∈ dels then none else f k
  | [], _, _ => by simp [replayDels]
  | d :: dels, f, k => by
    have ih := replayDels_apply dels (update f d none) k
    simp only [replayDels, foldl_cons] at ih ⊢
    rw [ih]
    by_cases hk : k = d
    · subst hk
      simp
    · simp [hk]

theorem replayMoves_of_not_touched : ∀ (moves : List (K × K × V)) (f : K → Option V) (k : K), ¬ Touched moves k →
    replayMoves moves f k = f k
  | [], _, _, _ => rfl
  | m :: moves, f, k, h => by
    have hm : k ≠ m.1 ∧ k ≠ m.2.1 := by
      constructor <;> intro he
      · exact h ⟨m, mem_cons_self, .inl he⟩
      · exact h ⟨m, mem_cons_self, .inr he⟩
    have hms : ¬ Touched moves k := fun ⟨m', hm', he⟩ => h ⟨m', mem_cons_of_mem m hm', he⟩
    have ih := replayMoves_of_not_touched moves
      (update (update f m.1 none) m.2.1 (some m.2.2)) k hms
    simp only [replayMoves, foldl_cons] at ih ⊢
    rw [ih, update_of_ne hm.2, update_of_ne hm.1]

theorem replayMoves_eq_none : ∀ (moves : List (K × K × V)) (f : K → Option V) (k : K), f k = none →
    (∀ m ∈ moves, m.2.1 ≠ k) → replayMoves moves f k = none
  | [], _, _, h, _ => h
  | m :: moves, f, k, h, hm => by
    have hne : k ≠ m.2.1 := fun he => hm m mem_cons_self he.symm
    refine replayMoves_eq_none moves _ k ?_ (fun m' hm' => hm m' (mem_cons_of_mem m hm'))
    simp only
    rw [update_of_ne hne]
    by_cases hk : k = m.1
    · subst hk
      exact update_self ..
    · rwa [update_of_ne hk]

theorem replayMoves_from : ∀ (moves : List (K × K × V)) (f : K → Option V) (k : K), (∃ m ∈ moves, m.1 = k) →
    (∀ m ∈ moves, m.2.1 ≠ k) → replayMoves moves f k = none
  | [], _, _, h, _ => by
    obtain ⟨m, hm, -⟩ := h
    cases hm
  | m :: moves, f, k, h, hm => by
    have hne : k ≠ m.2.1 := fun he => hm m mem_cons_self he.symm
    have hms : ∀ m' ∈ moves, m'.2.1 ≠ k := fun m' hm' => hm m' (mem_cons_of_mem m hm')
    by_cases hk : m.1 = k
    · subst hk
      refine replayMoves_eq_none moves _ m.1 ?_ hms
      simp only
      rw [update_of_ne hne, update_self]
    · obtain ⟨m', hm', he⟩ := h
      rcases mem_cons.1 hm' with rfl | hm'
      · exact absurd he hk
      · exact replayMoves_from moves _ k ⟨m', hm', he⟩ hms

def ChangeLog.map {W : Type} (g : V → W) (l : ChangeLog K V) : ChangeLog K W where
  sets := l.sets.map (fun s => (s.1, g s.2))
  dels := l.dels
  moves := l.moves.map (fun m => (m.1, m.2.1, g m.2.2))

theorem replay_map {W : Type} (g : V → W) (l : ChangeLog K V) (f : K → Option V) :
    (l.map g).replay (Option.map g ∘ f) = Option.map g ∘ l.replay f := by
  have hsets : ∀ (sets : List (K × V)) (f : K → Option V),
      replaySets (sets.map (fun s => (s.1, g s.2))) (Option.map g ∘ f) = Option.map g ∘ replaySets sets f := by
    intro sets
    induction sets with
    | nil => exact fun f => rfl
    | cons s sets ih =>
      intro f
      have hs := ih (update f s.1 (some s.2))
      rwa [comp_update] at hs
  have hdels : ∀ (dels : List K) (f : K → Option V),
      replayDels dels (Option.map g ∘ f) = Option.map g ∘ replayDels dels f := by
    intro dels f
    funext k
    rw [comp_apply, replayDels_apply, replayDels_apply]
    split <;> rfl
  have hmoves : ∀ (moves : List (K × K × V)) (f : K → Option V),
      replayMoves (moves.map (fun m => (m.1, m.2.1, g m.2.2))) (Option.map g ∘ f) =
        Option.map g ∘ replayMoves moves f := by
    intro moves
    induction moves with
    | nil => exact fun f => rfl
    | cons m moves ih =>
      intro f
      have hm := ih (update (update f m.1 none) m.2.1 (some m.2.2))
      rwa [comp_update, comp_update] at hm
  unfold ChangeLog.replay ChangeLog.map
  rw [hsets, hdels, hmoves]

structure Tracks (start now : K → Option V) (l : ChangeLog K V) : Prop where
  moved : ∀ k, Touched l.moves k → ∀ f, replayMoves l.moves f k = now k
  kept : ∀ k, ¬ Touched l.moves k → ∀ v, now k = some v → replaySets l.sets start k = some v
  gone : ∀ k, ¬ Touched l.moves k → now k = none → k ∈ l.dels ∨ replaySets l.sets start k = none

theorem replaySets_concat (sets : List (K × V)) (s : K × V) (f : K → Option V) :
    replaySets (sets ++ [s]) f = update (replaySets sets f) s.1 (some s.2) := by
  unfold replaySets
  rw [foldl_append]
  rfl

theorem replayMoves_concat (moves : List (K × K × V)) (m : K × K × V) (f : K → Option V) :
    replayMoves (moves ++ [m]) f =
      update (update (replayMoves moves f) m.1 none) m.2.1 (some m.2.2) := by
  unfold replayMoves
  rw [foldl_append]
  rfl

theorem Tracks.begin (f : K → Option V) : Tracks f f ⟨[], [], []⟩ where
  moved k h := absurd h (not_touched_nil k)
  kept _ _ _ h := h
  gone _ _ h := .inr h

variable {start now : K → Option V} {l : ChangeLog K V}

theorem Tracks.set (h : Tracks start now l) (k : K) (v : V) (hk : ¬ Touched l.moves k) :
    Tracks start (update now k (some v)) { l with sets := l.sets ++ [(k, v)] } where
  moved k' h' f := by
    have hne : k' ≠ k := fun he => hk (he ▸ h')
    rw [update_of_ne hne]
    exact h.moved k' h' f
  kept k' hk' v' hv' := by
    rw [replaySets_concat]
    by_cases he : k' = k
    · subst he
      rw [update_self] at hv' ⊢
      exact hv'
    · rw [update_of_ne he] at hv' ⊢
      exact h.kept k' hk' v' hv'
  gone k' hk' hn := by
    rw [replaySets_concat]
    by_cases he : k' = k
    · subst he
      rw [update_self] at hn
      cases hn
    · rw [update_of_ne he] at hn ⊢
      exact h.gone k' hk' hn

theorem Tracks.del {sets : List (K × V)} {dels : List K} (h : Tracks start now ⟨sets, dels, []⟩) (k : K) :
    Tracks start (update now k none) ⟨sets, dels ++ [k], []⟩ where
  moved k' h' := absurd h' (not_touched_nil k')
  kept k' hk' v' hv' := by
    by_cases he : k' = k
    · subst he
      rw [update_self] at hv'
      cases hv'
    · rw [update_of_ne he] at hv'
      exact h.kept k' hk' v' hv'
  gone k' hk' hn := by
    by_cases he : k' = k
    · exact .inl (mem_append_right _ (mem_singleton.2 he))
    · rw [update_of_ne he] at hn
      exact (h.gone k' hk' hn).imp_left (mem_append_left _)

theorem Tracks.reset (h : Tracks start now l) (k : K) (v : V)
    (hv : now k = some v) : Tracks start now { l with sets := l.sets ++ [(k, v)] } where
  moved := h.moved
  kept k' hk' v' hv' := by
    rw [replaySets_concat]
    by_cases he : k' = k
    · subst he
      rw [update_self, ← hv, hv']
    · rw [update_of_ne he]
      exact h.kept k' hk' v' hv'
  gone k' hk' hn := by
    rw [replaySets_concat]
    by_cases he : k' = k
    · subst he
      rw [hv] at hn
      cases hn
    · rw [update_of_ne he]
      exact h.gone k' hk' hn

theorem Tracks.move (h : Tracks start now l) (old new : K) (v : V) :
    Tracks start (update (update now old none) new (some v))
      { l with moves := l.moves ++ [(old, new, v)] } := by
  have hsplit : ∀ k, Touched (l.moves ++ [(old, new, v)]) k ↔ Touched l.moves k ∨ k = old ∨ k = new := fun k => by
    simp [Touched, or_and_right, exists_or]
  have hkeep : ∀ k, ¬ Touched (l.moves ++ [(old, new, v)]) k → ¬ Touched l.moves k ∧ k ≠ old ∧ k ≠ new := fun k hk => by
    rwa [hsplit, not_or, not_or] at hk
  refine ⟨fun k hk f => ?_, fun k hk v' hv' => ?_, fun k hk hn => ?_⟩
  · simp only at hk ⊢
    rw [replayMoves_concat]
    by_cases hnew : k = new
    · subst hnew
      rw [update_self, update_self]
    · rw [update_of_ne hnew, update_of_ne hnew]
      by_cases hold : k = old
      · subst hold
        rw [update_self, update_self]
      · rw [update_of_ne hold, update_of_ne hold]
        exact h.moved k (((hsplit k).1 hk).resolve_right (not_or.2 ⟨hold, hnew⟩)) f
  · obtain ⟨ht, hold, hnew⟩ := hkeep k hk
    rw [update_of_ne hnew, update_of_ne hold] at hv'
    exact h.kept k ht v' hv'
  · obtain ⟨ht, hold, hnew⟩ := hkeep k hk
    rw [update_of_ne hnew, update_of_ne hold] at hn
    exact h.gone k ht hn

theorem Tracks.replay_eq_iff (h : Tracks start now l) :
    l.replay start = now ↔ ∀ k ∈ l.dels, now k ≠ none → ∃ m ∈ l.moves, m.2.1 = k := by
  constructor
  · intro he k hk hn
    by_contra hno
    refine hn ?_
    rw [← he]
    refine replayMoves_eq_none _ _ k ?_ (fun m hm hmk => hno ⟨m, hm, hmk⟩)
    rw [replayDels_apply, if_pos hk]
  · intro hback
    funext k
    unfold ChangeLog.replay
    by_cases ht : Touched l.moves k
    · exact h.moved k ht _
    · rw [replayMoves_of_not_touched _ _ _ ht, replayDels_apply]
      cases hn : now k with
      | none =>
        rcases h.gone k ht hn with hd | hs
        · rw [if_pos hd]
        · rw [hs, ite_self]
      | some v =>
        rw [if_neg]
        · exact h.kept k ht v hn
        · intro hd
          obtain ⟨m, hm, hmk⟩ := hback k hd (by rw [hn]; exact Option.some_ne_none v)
          exact ht ⟨m, hm, .inr hmk.symm⟩

/-! ## A second map that takes only the values it wants

The second map makes something of some values and passes over the others: an unwanted value is not set, and what the
key held before stays. -/

section

variable {W : Type} (want : V → Option W)

def setWanted (r : K → Option W) (k : K) (v : V) : K → Option W :=
  match want v with
  | some w => update r k (some w)
  | none => r

def setsWanted (sets : List (K × V)) (r : K → Option W) : K → Option W :=
  sets.foldl (fun r s => setWanted want r s.1 s.2) r

def movesWanted (moves : List (K × K × V)) (r : K → Option W) : K → Option W :=
  moves.foldl (fun r m => setWanted want (update r m.1 none) m.2.1 m.2.2) r

def ChangeLog.replayWanted (l : ChangeLog K V) (r : K → Option W) : K → Option W :=
  movesWanted want l.moves (replayDels l.dels (setsWanted want l.sets r))

def Covers (f : K → Option V) (r : K → Option W) : Prop := ∀ k w, (f k).bind want = some w → r k = some w

theorem setWanted_of_ne (r : K → Option W) {k k' : K} (v : V) (h : k' ≠ k) : setWanted want r k v k' = r k' := by
  unfold setWanted
  cases want v with
  | none => rfl
  | some w => exact update_of_ne h ..

theorem setWanted_self (r : K → Option W) (k : K) (v : V) : setWanted want r k v k = (want v).or (r k) := by
  unfold setWanted
  cases want v with
  | none => rfl
  | some w => exact update_self ..

variable {want}

variable {r : K → Option W} {f : K → Option V}

theorem Covers.set (h : Covers want f r) (k : K) (v : V) :
    Covers want (update f k (some v)) (setWanted want r k v) := by
  intro k' w hw
  by_cases he : k' = k
  · subst he
    rw [update_self, Option.bind_some] at hw
    rw [setWanted_self, hw, Option.some_or]
  · rw [update_of_ne he] at hw
    rw [setWanted_of_ne want r v he]
    exact h k' w hw

theorem Covers.drop (h : Covers want f r) (k : K) : Covers want (update f k none) (update r k none) := by
  intro k' w hw
  by_cases he : k' = k
  · subst he
    rw [update_self] at hw
    cases hw
  · rw [update_of_ne he] at hw ⊢
    exact h k' w hw

theorem Covers.replay (h : Covers want f r) (l : ChangeLog K V) : Covers want (l.replay f) (l.replayWanted want r) := by
  have hsets : Covers want (replaySets l.sets f) (setsWanted want l.sets r) :=
    run_sim (Covers want) (fun _ _ s hc _ => hc.set s.1 s.2) l.sets f r h (along_true _ _ _)
  have hdels : Covers want (replayDels l.dels (replaySets l.sets f)) (replayDels l.dels (setsWanted want l.sets r)) :=
    run_sim (Covers want) (fun _ _ k hc _ => hc.drop k) l.dels _ _ hsets (along_true _ _ _)
  exact run_sim (Covers want) (fun _ _ m hc _ => (hc.drop m.1).set m.2.1 m.2.2) l.moves _ _ hdels (along_true _ _ _)

theorem setWanted_ne_none (r : K → Option W) (k : K) (v : V) (k' : K) :
    setWanted want r k v k' ≠ none ↔ r k' ≠ none ∨ k = k' ∧ want v ≠ none := by
  by_cases he : k' = k
  · subst he
    rw [setWanted_self]
    cases want v <;> simp
  · rw [setWanted_of_ne want r v he]
    simp [Ne.symm he]

theorem setsWanted_ne_none : ∀ (sets : List (K × V)) (r : K → Option W) (k : K),
    setsWanted want sets r k ≠ none ↔ r k ≠ none ∨ ∃ s ∈ sets, s.1 = k ∧ want s.2 ≠ none
  | [], _, _ => by simp [setsWanted]
  | s :: sets, r, k => by
    have ih := setsWanted_ne_none sets (setWanted want r s.1 s.2) k
    rw [setWanted_ne_none] at ih
    simp only [setsWanted, foldl_cons, exists_mem_cons_iff] at ih ⊢
    rw [ih, or_assoc]

theorem movesWanted_ne_none : ∀ (moves : List (K × K × V)) (r : K → Option W) (k : K), (∀ m ∈ moves, m.1 ≠ k) →
    r k ≠ none → movesWanted want moves r k ≠ none
  | [], _, _, _, h => h
  | m :: moves, r, k, hm, h => by
    have hne : k ≠ m.1 := fun he => hm m mem_cons_self he.symm
    refine movesWanted_ne_none moves _ k (fun m' hm' => hm m' (mem_cons_of_mem m hm')) ?_
    rw [setWanted_ne_none, update_of_ne hne]
    exact .inl h

theorem wanted_or_stayed : ∀ (moves : List (K × K × V)) (f : K → Option V) (r : K → Option W) (k : K),
    (moves.map (fun m => m.2.1)).Nodup → movesWanted want moves r k ≠ none →
      (replayMoves moves f k).bind want ≠ none ∨ r k ≠ none ∧ ∀ m ∈ moves, m.1 ≠ k
  | [], _, _, _, _, h => .inr ⟨h, fun _ hm => by cases hm⟩
  | m :: moves, f, r, k, hnodup, h => by
    rw [map_cons, nodup_cons] at hnodup
    let f1 := update (update f m.1 none) m.2.1 (some m.2.2)
    rcases wanted_or_stayed moves f1 _ k hnodup.2 h with hw | ⟨hr, hms⟩
    · exact .inl hw
    · rcases (setWanted_ne_none _ m.2.1 m.2.2 k).1 hr with hr | ⟨rfl, hv⟩
      · have hne : k ≠ m.1 := fun he => hr (by rw [he, update_self])
        rw [update_of_ne hne] at hr
        exact .inr ⟨hr, forall_mem_cons.2 ⟨hne.symm, hms⟩⟩
      · -- moved to here, and neither from nor to afterwards
        have hlater : ¬ Touched moves m.2.1 := by
          rintro ⟨m', hm', he | he⟩
          · exact hms m' hm' he.symm
          · exact hnodup.1 (mem_map.2 ⟨m', hm', he.symm⟩)
        refine .inl ?_
        have hlast : replayMoves (m :: moves) f m.2.1 = some m.2.2 := by
          refine (replayMoves_of_not_touched moves f1 m.2.1 hlater).trans ?_
          exact update_self ..
        rwa [hlast]

theorem replayWanted_eq_iff (h : Covers want f r) {l : ChangeLog K V} (hnew : (l.moves.map (fun m => m.2.1)).Nodup) :
    (l.replayWanted want r = fun k => (l.replay f k).bind want) ↔
      ∀ k, (r k ≠ none ∨ ∃ s ∈ l.sets, s.1 = k ∧ want s.2 ≠ none) →
        (l.replay f k).bind want ≠ none ∨ k ∈ l.dels ∨ ∃ m ∈ l.moves, m.1 = k := by
  have hcov := h.replay l
  constructor
  · intro he k hk
    by_contra hno
    simp only [not_or, not_exists, not_and] at hno
    obtain ⟨hunwanted, hdel, hfrom⟩ := hno
    refine hunwanted ?_
    rw [← congrFun he k]
    refine movesWanted_ne_none l.moves _ k hfrom ?_
    rw [replayDels_apply, if_neg hdel]
    exact (setsWanted_ne_none l.sets r k).2 hk
  · intro hcond
    funext k
    cases hw : (l.replay f k).bind want with
    | some w => exact hcov k w hw
    | none =>
      by_contra hr
      rcases wanted_or_stayed l.moves (replayDels l.dels (replaySets l.sets f)) _ k hnew hr with hyes | ⟨hr, hfrom⟩
      · exact hyes hw
      · rw [replayDels_apply] at hr
        split at hr
        · exact hr rfl
        next hdel =>
          rcases hcond k ((setsWanted_ne_none l.sets r k).1 hr) with hyes | hd | ⟨m, hm, he⟩
          · exact hyes hw
          · exact hdel hd
          · exact hfrom m hm he

end

/-! ## A hash map replays a log -/

theorem lookup_foldl_insert_replay {α : Type} (key : α → K) (val : α → V) : ∀ (l : List α) (m : HashMap K V),
    (l.foldl (fun m a => m.insert (key a) (val a)) m).lookup =
      replaySets (l.map (fun a => (key a, val a))) m.lookup
  | [], _ => rfl
  | a :: l, m => by
    rw [foldl_cons, lookup_foldl_insert_replay key val l, HashMap.lookup_insert_update]
    rfl

theorem lookup_foldl_erase_replay : ∀ (l : List K) (m : HashMap K V),
    (l.foldl (fun m k => m.erase k) m).lookup = replayDels l m.lookup
  | [], _ => rfl
  | k :: l, m => by
    rw [foldl_cons, lookup_foldl_erase_replay l, HashMap.lookup_erase_update]
    rfl

theorem lookup_foldl_move_replay {α : Type} (old new : α → K) (val : α → V) : ∀ (l : List α) (m : HashMap K V),
    (l.foldl (fun m a => (m.erase (old a)).insert (new a) (val a)) m).lookup =
      replayMoves (l.map (fun a => (old a, new a, val a))) m.lookup
  | [], _ => rfl
  | a :: l, m => by
    rw [foldl_cons, lookup_foldl_move_replay old new val l, HashMap.lookup_insert_update,
      HashMap.lookup_erase_update]
    rfl

end

end TailscaleVita
