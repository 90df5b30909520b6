import Mathlib.Data.Finmap
import Mathlib.Data.List.Sort
/-!
# HashMap — finite maps, and the order a hash map is walked in

A hash map is a `Finmap`. Its iteration order is not part of its value, so every walk over `keys()` or `values()` takes
a `HashOrder`, an arbitrary enumeration of a finite key set, and a result about the walk holds in every order.
-/
namespace TailscaleVita

open Function

abbrev HashMap (K V : Type) := Finmap (fun _ : K => V)

namespace HashMap

variable {K V : Type} [DecidableEq K]

theorem lookup_insert_eq (m : HashMap K V) (k k' : K) (v : V) :
    (m.insert k v).lookup k' = if k' = k then some v else m.lookup k' := by
  split
  next h =>
    subst h
    exact Finmap.lookup_insert m
  next h => exact Finmap.lookup_insert_of_ne m h

theorem lookup_erase_eq (m : HashMap K V) (k k' : K) :
    (m.erase k).lookup k' = if k' = k then none else m.lookup k' := by
  split
  next h =>
    subst h
    exact Finmap.lookup_erase k' m
  next h => exact Finmap.lookup_erase_ne h

theorem lookup_insert_update (m : HashMap K V) (k : K) (v : V) :
    (m.insert k v).lookup = update m.lookup k (some v) := by
  funext k'
  rw [lookup_insert_eq, update_apply]

theorem lookup_erase_update (m : HashMap K V) (k : K) : (m.erase k).lookup = update m.lookup k none := by
  funext k'
  rw [lookup_erase_eq, update_apply]

theorem insert_of_lookup {m : HashMap K V} {k : K} {v : V} (h : m.lookup k = some v) : m.insert k v = m := by
  apply Finmap.ext_lookup
  intro k'
  rw [lookup_insert_eq]
  split
  next he => rw [he, h]
  · rfl

theorem erase_of_lookup_none {m : HashMap K V} {k : K} (h : m.lookup k = none) : m.erase k = m := by
  apply Finmap.ext_lookup
  intro k'
  rw [lookup_erase_eq]
  split
  next he => rw [he, h]
  · rfl

theorem mem_keys_iff (m : HashMap K V) (k : K) : k ∈ m.keys ↔ ∃ v, m.lookup k = some v := by
  rw [Finmap.mem_keys, Finmap.mem_iff]

theorem card_keys_le {m m' : HashMap K V} (h : ∀ k v, m.lookup k = some v → ∃ v', m'.lookup k = some v') :
    m.keys.card ≤ m'.keys.card := Finset.card_le_card (fun k hk => by
  obtain ⟨v, hv⟩ := (mem_keys_iff m k).1 hk
  exact (mem_keys_iff m' k).2 (h k v hv))

theorem keys_insert (m : HashMap K V) (k : K) (v : V) : (m.insert k v).keys = insert k m.keys := by
  ext k'
  rw [mem_keys_iff, lookup_insert_eq, Finset.mem_insert, mem_keys_iff]
  by_cases h : k' = k <;> simp [h]

theorem card_keys_insert (m : HashMap K V) (k : K) (v : V) :
    (m.insert k v).keys.card = if (m.lookup k).isSome then m.keys.card else m.keys.card + 1 := by
  have hmem : k ∈ m.keys ↔ (m.lookup k).isSome := by rw [mem_keys_iff, Option.isSome_iff_exists]
  rw [keys_insert]
  split
  next h => rw [Finset.insert_eq_of_mem (hmem.2 h)]
  next h => exact Finset.card_insert_of_notMem (fun hk => h (hmem.1 hk))

theorem card_keys_erase_le (m : HashMap K V) (k : K) : (m.erase k).keys.card ≤ m.keys.card :=
  card_keys_le (fun k' v h => by
    rw [lookup_erase_eq] at h
    split at h
    · cases h
    · exact ⟨v, h⟩)

theorem lookup_foldl_insert {α : Type} (key : α → K) (val : α → V) : ∀ (l : List α) (m : HashMap K V) (k : K),
    (l.foldl (fun m a => m.insert (key a) (val a)) m).lookup k =
      ((l.filter (fun a => decide (key a = k))).getLast?.map val).or (m.lookup k)
  | [], m, k => by simp
  | a :: l, m, k => by
    rw [List.foldl_cons, lookup_foldl_insert key val l, lookup_insert_eq, List.filter_cons]
    by_cases h : key a = k
    · subst h
      rw [if_pos rfl, if_pos (by simp), List.getLast?_cons]
      cases (l.filter (fun b => decide (key b = key a))).getLast? <;> simp
    · rw [if_neg (Ne.symm h), if_neg (by simpa using h)]

end HashMap

/-- The order a hash map is walked in: every key once, in an order nothing else is known of. -/
structure HashOrder (K : Type) where
  order : Finset K → List K
  mem_order : ∀ s k, k ∈ order s ↔ k ∈ s
  nodup_order : ∀ s, (order s).Nodup

namespace HashOrder

variable {K V : Type} [DecidableEq K]

def values (ord : HashOrder K) (m : HashMap K V) : List V := (ord.order m.keys).filterMap (fun k => m.lookup k)

theorem mem_values (ord : HashOrder K) (m : HashMap K V) (v : V) : v ∈ ord.values m ↔ ∃ k, m.lookup k = some v := by
  unfold values
  rw [List.mem_filterMap]
  constructor
  · rintro ⟨k, -, h⟩
    exact ⟨k, h⟩
  · rintro ⟨k, h⟩
    exact ⟨k, (ord.mem_order _ _).2 ((HashMap.mem_keys_iff m k).2 ⟨v, h⟩), h⟩

def retain (ord : HashOrder K) (keep : K → V → Bool) (m : HashMap K V) : HashMap K V :=
  (ord.order m.keys).foldl (fun m' k => if (m.lookup k).any (keep k) then m' else m'.erase k) m

theorem lookup_retain (ord : HashOrder K) (keep : K → V → Bool) (m : HashMap K V) (k : K) :
    (ord.retain keep m).lookup k = (m.lookup k).filter (keep k) := by
  let pass := fun (m' : HashMap K V) k => if (m.lookup k).any (keep k) then m' else m'.erase k
  have hpass : ∀ (m' : HashMap K V) k', (pass m' k').lookup k =
      if k = k' ∧ (m.lookup k).any (keep k) = false then none else m'.lookup k := by
    intro m' k'
    by_cases hk : k = k'
    · subst hk
      cases hkeep : (m.lookup k).any (keep k) <;> simp [pass, hkeep]
    · cases hkeep : (m.lookup k').any (keep k') <;> simp [pass, hkeep, hk]
  have hfold : ∀ (ks : List K) (m' : HashMap K V), (ks.foldl pass m').lookup k =
      if k ∈ ks ∧ (m.lookup k).any (keep k) = false then none else m'.lookup k := by
    intro ks
    induction ks with
    | nil => simp
    | cons k' ks ih =>
      intro m'
      rw [List.foldl_cons, ih, hpass]
      by_cases hk : k = k'
      · subst hk
        cases (m.lookup k).any (keep k) <;> simp
      · simp [hk]
  refine (hfold (ord.order m.keys) m).trans ?_
  cases hl : m.lookup k with
  | none => simp
  | some v =>
    have hmem : k ∈ ord.order m.keys := (ord.mem_order _ _).2 ((HashMap.mem_keys_iff m k).2 ⟨v, hl⟩)
    cases hv : keep k v <;> simp [hv, hmem, Option.filter]

theorem keys_retain (ord : HashOrder K) (keep : K → V → Bool) (m : HashMap K V) :
    (ord.retain keep m).keys = m.keys.filter (fun k => (m.lookup k).any (keep k)) := by
  ext k
  rw [HashMap.mem_keys_iff, lookup_retain, Finset.mem_filter, HashMap.mem_keys_iff]
  cases m.lookup k <;> simp [Option.filter]

theorem card_keys_retain_le (ord : HashOrder K) (keep : K → V → Bool) (m : HashMap K V) :
    (ord.retain keep m).keys.card ≤ m.keys.card :=
  HashMap.card_keys_le (fun k v h => by
    rw [lookup_retain] at h
    exact ⟨v, (Option.filter_eq_some_iff.1 h).1⟩)

def mapValues {W : Type} (ord : HashOrder K) (f : V → W) (m : HashMap K V) : HashMap K W :=
  (ord.order m.keys).foldl (fun m' k =>
    match m.lookup k with
    | some v => m'.insert k (f v)
    | none => m') ∅

def byRank (rank : K → Nat) (hr : Injective rank) : HashOrder K where
  order s := Quotient.liftOn s.val (List.insertionSort (fun a b => rank a ≤ rank b)) (fun l₁ l₂ h => by
    have : Std.Total (fun a b : K => rank a ≤ rank b) := ⟨fun a b => Nat.le_total _ _⟩
    have : IsTrans K (fun a b : K => rank a ≤ rank b) := ⟨fun _ _ _ => Nat.le_trans⟩
    refine List.Perm.eq_of_pairwise (fun a b _ _ h₁ h₂ => hr (Nat.le_antisymm h₁ h₂))
      (List.pairwise_insertionSort _ l₁) (List.pairwise_insertionSort _ l₂) ?_
    exact (List.perm_insertionSort _ l₁).trans (h.trans (List.perm_insertionSort _ l₂).symm))
  mem_order s k := by
    obtain ⟨s, hs⟩ := s
    induction s using Quotient.inductionOn with
    | h l => exact List.mem_insertionSort _
  nodup_order s := by
    obtain ⟨s, hs⟩ := s
    induction s using Quotient.inductionOn with
    | h l => exact (List.perm_insertionSort _ l).nodup_iff.2 (Multiset.coe_nodup.1 hs)

end HashOrder

end TailscaleVita
