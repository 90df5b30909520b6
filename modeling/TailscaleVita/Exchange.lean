import Mathlib.Logic.Basic
/-!
# Exchange — a shared value replaced by compare-and-exchange

A caller loads the value, works out the value that should follow it, and exchanges the two if nobody came in between;
otherwise, or if the exchange failed for no reason, it starts over from the value that it observed. `access` is one
access to the shared value, so that accesses of many callers can be interleaved.
-/
namespace TailscaleVita

/-- A caller before its next access; what it is about to put in place follows what it has seen. -/
inductive Exchange {α : Type} (follow : α → Option α) where
  | loading
  | exchanging (current next : α) (follows : follow current = some next)

inductive Exchanged {α : Type} (follow : α → Option α) where
  | again (x : Exchange follow)
  | replaced
  | refused

section

variable {α : Type}

def Exchange.start (follow : α → Option α) (observed : α) : Exchanged follow :=
  match h : follow observed with
  | none => .refused
  | some next => .again (.exchanging observed next h)

variable {follow : α → Option α} [DecidableEq α]

def Exchange.access (cell : α) (spurious : Bool) : Exchange follow → α × Exchanged follow
  | .loading => (cell, start follow cell)
  | .exchanging current next _ =>
    if cell = current ∧ spurious = false then (next, .replaced) else (cell, start follow cell)

theorem Exchange.access_cases (cell : α) (spurious : Bool) (x : Exchange follow) :
    (∃ x', x.access cell spurious = (cell, .again x')) ∨
    (∃ next, follow cell = some next ∧ x.access cell spurious = (next, .replaced)) ∨
    (follow cell = none ∧ x.access cell spurious = (cell, .refused)) := by
  have hstart : (∃ x', start follow cell = .again x') ∨ (follow cell = none ∧ start follow cell = .refused) := by
    unfold start
    split
    next h => exact .inr ⟨h, rfl⟩
    · exact .inl ⟨_, rfl⟩
  have hagain : x.access cell spurious = (cell, start follow cell) →
      (∃ x', x.access cell spurious = (cell, .again x')) ∨
      (follow cell = none ∧ x.access cell spurious = (cell, .refused)) := by
    intro h
    rw [h]
    rcases hstart with ⟨x', hx'⟩ | ⟨hnone, hrefused⟩
    · exact .inl ⟨x', by rw [hx']⟩
    · exact .inr ⟨hnone, by rw [hrefused]⟩
  cases x with
  | loading => exact (hagain rfl).imp_right .inr
  | exchanging current next follows =>
    by_cases h : cell = current ∧ spurious = false
    · rw [access, if_pos h, h.1]
      exact .inr (.inl ⟨next, follows, rfl⟩)
    · exact (hagain (if_neg h)).imp_right .inr

end

end TailscaleVita
