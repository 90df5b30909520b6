import Mathlib.Data.List.Nodup
/-!
# Cells — a heap of mutable cells, and a loop over shared handles to them

Handles name places of the heap. `visit` is a `for` loop over handles: each pass reads the cell of its handle, stores
the new one and appends its output. When no two handles share a place, the passes do not see each other.
-/
namespace TailscaleVita

open List

section

variable {α β η : Type} (at' : η → Nat) (f : η → α → α × List β)

def touch (heap : List α) (h : η) : List α × List β :=
  match heap[at' h]? with
  | some c => (heap.set (at' h) (f h c).1, (f h c).2)
  | none => (heap, [])

def visit (heap : List α) : List η → List α × List β
  | [] => (heap, [])
  | h :: hs =>
    let r := touch at' f heap h
    let rs := visit r.1 hs
    (rs.1, r.2 ++ rs.2)

theorem length_touch (heap : List α) (h : η) : (touch at' f heap h).1.length = heap.length := by
  unfold touch
  split
  · exact length_set
  · rfl

theorem getElem?_touch_ne (heap : List α) (h : η) (i : Nat) (hi : i ≠ at' h) :
    (touch at' f heap h).1[i]? = heap[i]? := by
  unfold touch
  split
  · exact getElem?_set_ne hi.symm
  · rfl

theorem getElem?_touch (heap : List α) (h : η) :
    (touch at' f heap h).1[at' h]? = (heap[at' h]?).map (fun c => (f h c).1) := by
  unfold touch
  cases hc : heap[at' h]? with
  | none => exact hc
  | some c =>
    have hlt : at' h < heap.length := (List.getElem?_eq_some_iff.1 hc).1
    simp only [Option.map_some]
    rw [getElem?_set_self hlt]

theorem length_visit : ∀ (hs : List η) (heap : List α), (visit at' f heap hs).1.length = heap.length
  | [], _ => rfl
  | h :: hs, heap => (length_visit hs _).trans (length_touch at' f heap h)

theorem getElem?_visit_of_notMem : ∀ (hs : List η) (heap : List α) (i : Nat), i ∉ hs.map at' →
    (visit at' f heap hs).1[i]? = heap[i]?
  | [], _, _, _ => rfl
  | h :: hs, heap, i, hi => by
    rw [map_cons, mem_cons, not_or] at hi
    simp only [visit]
    rw [getElem?_visit_of_notMem hs _ i hi.2, getElem?_touch_ne at' f heap h i hi.1]

theorem getElem?_visit_of_mem : ∀ (hs : List η) (heap : List α), (hs.map at').Nodup → ∀ h ∈ hs,
    (visit at' f heap hs).1[at' h]? = (heap[at' h]?).map (fun c => (f h c).1)
  | h0 :: hs, heap, hn, h, hm => by
    rw [map_cons, nodup_cons] at hn
    simp only [visit]
    rcases mem_cons.1 hm with rfl | hm'
    · rw [getElem?_visit_of_notMem at' f hs _ _ hn.1, getElem?_touch]
    · have hne : at' h ≠ at' h0 := fun he => hn.1 (he ▸ mem_map_of_mem hm')
      rw [getElem?_visit_of_mem hs _ hn.2 h hm', getElem?_touch_ne at' f heap h0 _ hne]

theorem mem_visit : ∀ (hs : List η) (heap : List α), (hs.map at').Nodup → ∀ x,
    x ∈ (visit at' f heap hs).2 ↔ ∃ h ∈ hs, ∃ c, heap[at' h]? = some c ∧ x ∈ (f h c).2
  | [], _, _, x => by simp [visit]
  | h0 :: hs, heap, hn, x => by
    rw [map_cons, nodup_cons] at hn
    simp only [visit]
    rw [mem_append, mem_visit hs _ hn.2, exists_mem_cons_iff]
    apply or_congr
    · unfold touch
      cases hc : heap[at' h0]? with
      | none | some c => simp
    · have hsame : ∀ h ∈ hs, (touch at' f heap h0).1[at' h]? = heap[at' h]? := fun h hm =>
        getElem?_touch_ne at' f heap h0 _ (fun he => hn.1 (he ▸ mem_map_of_mem hm))
      constructor
      · rintro ⟨h, hm, c, hc, hx⟩
        exact ⟨h, hm, c, (hsame h hm) ▸ hc, hx⟩
      · rintro ⟨h, hm, c, hc, hx⟩
        exact ⟨h, hm, c, (hsame h hm).symm ▸ hc, hx⟩

theorem visit_map {γ : Type} {f' : η → γ → γ × List β} (g : α → γ)
    (h : ∀ (x : η) (c : α), f' x (g c) = (g (f x c).1, (f x c).2)) :
    ∀ (hs : List η) (heap : List α), visit at' f' (heap.map g) hs =
      ((visit at' f heap hs).1.map g, (visit at' f heap hs).2)
  | [], _ => rfl
  | x :: hs, heap => by
    have htouch : touch at' f' (heap.map g) x = ((touch at' f heap x).1.map g, (touch at' f heap x).2) := by
      unfold touch
      rw [getElem?_map]
      cases heap[at' x]? with
      | none => rfl
      | some c => simp [h]
    simp only [visit]
    rw [htouch, visit_map g h hs]

end

end TailscaleVita
