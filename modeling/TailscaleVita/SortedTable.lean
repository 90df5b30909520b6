import Mathlib.Data.List.Sort
/-!
# SortedTable — tables kept sorted by a key, read at the first match

A table sorted by a descending key with a stable sort: entries of equal key stay in the order they were pushed in, so
the first match is a match of greatest key and, among those, the one pushed first.
-/
namespace TailscaleVita

open List

section

variable {α : Type} (key : α → Nat)

def sortDescending (l : List α) : List α := l.insertionSort (fun a b => key b ≤ key a)

theorem perm_sortDescending (l : List α) : (sortDescending key l).Perm l := perm_insertionSort _ l

theorem pairwise_sortDescending (l : List α) : (sortDescending key l).Pairwise (fun a b => key b ≤ key a) := by
  exact pairwise_insertionSort _ l

variable {R : α → α → Prop}

theorem orderedInsert_tie (a : α) : ∀ (l : List α), (∀ b ∈ l, key a = key b → R a b) →
    l.Pairwise (fun a b => key a = key b → R a b) →
    (l.orderedInsert (fun a b => key b ≤ key a) a).Pairwise (fun a b => key a = key b → R a b)
  | [], _, _ => by simp
  | b :: l, ha, hl => by
    rw [orderedInsert_cons]
    split
    · exact List.Pairwise.cons ha hl
    next hlt =>
      refine List.Pairwise.cons (fun c hc => ?_)
        (orderedInsert_tie a l (fun c hc => ha c (mem_cons_of_mem _ hc)) hl.of_cons)
      -- the inserted element lands behind `b` only when its key is smaller, so the two never tie
      rcases mem_orderedInsert _ |>.1 hc with rfl | hc
      · intro he
        omega
      · exact rel_of_pairwise_cons hl hc

theorem sortDescending_tie : ∀ (l : List α), l.Pairwise (fun a b => key a = key b → R a b) →
    (sortDescending key l).Pairwise (fun a b => key a = key b → R a b)
  | [], _ => by simp [sortDescending]
  | a :: l, h => by
    refine orderedInsert_tie key a _ (fun b hb => ?_) (sortDescending_tie l h.of_cons)
    exact rel_of_pairwise_cons h ((perm_sortDescending key l).mem_iff.1 hb)

theorem find?_first {p : α → Bool} {l : List α} {a b : α} (hl : l.Pairwise R)
    (ha : l.find? p = some a) (hb : b ∈ l) (hp : p b = true) : b = a ∨ R a b := by
  obtain ⟨-, pre, post, rfl, hpre⟩ := find?_eq_some_iff_append.1 ha
  rcases mem_append.1 hb with hb | hb
  · have := hpre b hb
    simp [hp] at this
  · rcases mem_cons.1 hb with rfl | hb
    · exact .inl rfl
    · exact .inr (rel_of_pairwise_cons (pairwise_append.1 hl).2.1 hb)

end

end TailscaleVita
