import Mathlib.Logic.Function.Basic
/-!
# Slot — a cell that is filled once

A slot is vacant, claimed by somebody who is about to fill it, or filled. The one that has the claim makes a value, or
fails to, and then fills the slot, vacates it, or leaves it claimed for ever. `Inv` is what every interleaving of such
moves keeps: one claimant at most, and one value at most that was ever made.
-/
namespace TailscaleVita

open Function

inductive Slot (α : Type) where
  | vacant
  | claimed
  | filled (a : α)

inductive Claim (α : Type) where
  | away
  | building
  | built (result : Option α)
deriving DecidableEq

def places {α θ : Type} (place : θ → Claim α) (ts : List θ) (i : Nat) : Claim α := (ts[i]?.map place).getD .away

inductive Slot.Move {α : Type} : Slot α → List α → Claim α → Slot α → List α → Claim α → Prop where
  | stay {slot made place} : Move slot made place slot made place
  | claim {made} : Move .vacant made .away .claimed made .building
  | build {slot made} (result : Option α) : Move slot made .building slot (made ++ result.toList) (.built result)
  | fill {slot made a} : Move slot made (.built (some a)) (.filled a) made .away
  | vacate {slot made} : Move slot made (.built none) .vacant made .away
  | abandon {slot made} : Move slot made .building slot made .away

section

variable {α : Type}

structure Slot.Inv (slot : Slot α) (made : List α) (place : Nat → Claim α) : Prop where
  one : ∀ i j, place i ≠ .away → place j ≠ .away → i = j
  claimed : ∀ i, place i ≠ .away → slot = .claimed
  building : ∀ i, place i = .building → made = []
  built : ∀ i r, place i = .built r → made = r.toList
  vacant : slot = .vacant → made = []
  filled : ∀ a, slot = .filled a → made = [a]
  once : made.length ≤ 1

def Slot.Attended (slot : Slot α) (place : Nat → Claim α) : Prop := slot = .claimed → ∃ i, place i ≠ .away

variable {slot slot' : Slot α} {made made' : List α} {place : Nat → Claim α} {p : Claim α} {i : Nat}

section

variable {θ : Type} (f : θ → Claim α) {ts : List θ} {t : θ}

theorem places_of_getElem? (ht : ts[i]? = some t) : places f ts i = f t := by
  rw [places, ht]
  rfl

theorem places_set (ht : ts[i]? = some t) (t' : θ) : places f (ts.set i t') = update (places f ts) i (f t') := by
  funext j
  by_cases hj : j = i
  · rw [hj, update_self, places, List.getElem?_set_self (List.getElem?_eq_some_iff.1 ht).1]
    rfl
  · rw [update_of_ne hj, places, List.getElem?_set_ne (Ne.symm hj)]
    rfl

theorem places_append (ht : f t = .away) : places f (ts ++ [t]) = places f ts := by
  funext j
  unfold places
  by_cases hj : j < ts.length
  · rw [List.getElem?_append_left hj]
  · rw [List.getElem?_append_right (Nat.le_of_not_lt hj), List.getElem?_eq_none (Nat.le_of_not_lt hj)]
    cases j - ts.length with
    | zero => exact ht
    | succ n => rfl

end

theorem Slot.inv_vacant : Slot.Inv (.vacant : Slot α) [] fun _ => .away where
  one _ _ h := absurd rfl h
  claimed _ h := absurd rfl h
  building _ h := by cases h
  built _ _ h := by cases h
  vacant _ := rfl
  filled _ h := by cases h
  once := Nat.zero_le 1

theorem Slot.Inv.claims {θ : Type} {f : θ → Claim α} {ts : List θ} {t : θ} (h : slot.Inv made (places f ts))
    (ht : ts[i]? = some t) (hf : f t ≠ .away) : slot = .claimed :=
  h.claimed i (by rwa [places_of_getElem? f ht])

theorem Slot.Inv.nobody (h : Slot.Inv slot made place) (hi : place i ≠ .away) (j : Nat) :
    update place i .away j = .away := by
  by_cases hj : j = i
  · rw [hj, update_self]
  · rw [update_of_ne hj]
    by_contra hne
    exact hj (h.one j i hne hi)

theorem Slot.Inv.leave (h : Slot.Inv slot made place) (hi : place i ≠ .away) (hvacant : slot' = .vacant → made = [])
    (hfilled : ∀ a, slot' = .filled a → made = [a]) : Slot.Inv slot' made (update place i .away) := by
  have hgone := h.nobody hi
  refine ⟨fun j _ hj => absurd (hgone j) hj, fun j hj => absurd (hgone j) hj, fun j hj => ?_, fun j r hj => ?_,
    hvacant, hfilled, h.once⟩
  · rw [hgone] at hj
    cases hj
  · rw [hgone] at hj
    cases hj

theorem Slot.Inv.move (h : Slot.Inv slot made place) (hm : Slot.Move slot made (place i) slot' made' p) :
    Slot.Inv slot' made' (update place i p) := by
  generalize hp : place i = q at hm
  cases hm with
  | stay =>
    rwa [← hp, update_eq_self]
  | claim =>
    have haway : ∀ j, place j = .away := by
      intro j
      by_contra hj
      cases h.claimed j hj
    have honly : ∀ j, update place i .building j ≠ .away → j = i := by
      intro j hj
      by_contra hne
      exact hj (by rw [update_of_ne hne, haway])
    refine ⟨fun j k hj hk => (honly j hj).trans (honly k hk).symm, fun _ _ => rfl, fun _ _ => h.vacant rfl,
      fun j r hj => ?_, nofun, nofun, h.once⟩
    rw [honly j (by rw [hj]; nofun), update_self] at hj
    cases hj
  | build result =>
    have hi : place i ≠ .away := by rw [hp]; nofun
    have hmade := h.building i hp
    have hclaimed := h.claimed i hi
    have honly : ∀ j, update place i (.built result) j ≠ .away → j = i := by
      intro j hj
      by_contra hne
      rw [update_of_ne hne] at hj
      exact hne (h.one j i hj hi)
    rw [hmade, List.nil_append]
    refine ⟨fun j k hj hk => (honly j hj).trans (honly k hk).symm, fun _ _ => hclaimed, fun j hj => ?_,
      fun j r hj => ?_, (fun hs => by rw [hclaimed] at hs; cases hs), (fun a hs => by rw [hclaimed] at hs; cases hs),
      by cases result <;> simp⟩
    · rw [honly j (by rw [hj]; nofun), update_self] at hj
      cases hj
    · rw [honly j (by rw [hj]; nofun), update_self] at hj
      cases hj
      rfl
  | @fill _ _ a =>
    refine h.leave (by rw [hp]; nofun) nofun (fun b hs => ?_)
    cases hs
    exact h.built i _ hp
  | vacate => exact h.leave (by rw [hp]; nofun) (fun _ => h.built i _ hp) nofun
  | abandon =>
    have hi : place i ≠ .away := by rw [hp]; nofun
    refine h.leave hi (fun hs => ?_) (fun a hs => ?_)
    · rw [h.claimed i hi] at hs
      cases hs
    · rw [h.claimed i hi] at hs
      cases hs

theorem Slot.attended_move_iff (h : Slot.Inv slot made place) (hs : slot.Attended place)
    (hm : Slot.Move slot made (place i) slot' made' p) :
    slot'.Attended (update place i p) ↔ ¬ (place i = .building ∧ p = .away) := by
  have hstays : p ≠ .away → slot'.Attended (update place i p) := fun hne _ => ⟨i, by rwa [update_self]⟩
  generalize hp : place i = q at hm
  cases hm with
  | stay =>
    rw [← hp, update_eq_self]
    refine ⟨fun _ h => ?_, fun _ => hs⟩
    rw [h.1] at h
    cases h.2
  | claim | build result => exact ⟨(fun _ h => by cases h.2), fun _ => hstays nofun⟩
  | fill | vacate => exact ⟨(fun _ h => by cases h.1), fun _ hc => by cases hc⟩
  | abandon =>
    have hi : place i ≠ .away := by rw [hp]; nofun
    refine ⟨fun hatt => ?_, fun hno => absurd ⟨rfl, rfl⟩ hno⟩
    obtain ⟨j, hj⟩ := hatt (h.claimed i hi)
    exact absurd (h.nobody hi j) hj

end

end TailscaleVita
