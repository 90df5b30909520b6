import Mathlib.Algebra.Ring.Nat
import Mathlib.Data.List.Basic
/-!
# Sections — lists of items under headers

Some items of a list are headers and begin a section; the others may have a key. `find` looks a key up under a header;
`put` replaces it in the first section of that name, adds it to that section's end, or adds a whole section.
-/
namespace TailscaleVita

open List

structure Sections (α S K : Type) where
  header : α → Option S
  key : α → Option K

namespace Sections

section

variable {α S K : Type} [DecidableEq S] [DecidableEq K] (sh : Sections α S K) (s : S) (k : K)

def find : (here : Bool) → List α → Option α
  | _, [] => none
  | here, a :: l =>
    match sh.header a with
    | some name => find (decide (name = s)) l
    | none => if here = true ∧ sh.key a = some k then some a else find here l

def put (new : Option α → α) (whole : List α) : (here seen : Bool) → List α → List α
  | here, seen, [] => if here then [new none] else if seen then [] else whole
  | here, seen, a :: l =>
    match sh.header a with
    | some name =>
      if here then new none :: a :: l else a :: put new whole (decide (name = s)) (seen || decide (name = s)) l
    | none => if here = true ∧ sh.key a = some k then new (some a) :: l else a :: put new whole here seen l

def others : (here : Bool) → List α → List α
  | _, [] => []
  | here, a :: l =>
    match sh.header a with
    | some name => if here then a :: l else a :: others (decide (name = s)) l
    | none => if here = true ∧ sh.key a = some k then l else a :: others here l

end

section

variable {α S K : Type} [DecidableEq S] [DecidableEq K] {sh : Sections α S K} {s : S} {k : K}

structure Puts (sh : Sections α S K) (s : S) (k : K) (new : Option α → α) (whole : List α) : Prop where
  plain : ∀ x, sh.header (new x) = none
  keyed : ∀ x, sh.key (new x) = some k
  whole_eq : ∃ blank top, whole = [blank, top, new none] ∧ sh.header blank = none ∧ sh.key blank = none ∧
    sh.header top = some s

variable {new : Option α → α} {whole : List α}

theorem find_new (h : Puts sh s k new whole) (x : Option α) (l : List α) :
    sh.find s k true (new x :: l) = some (new x) := by
  rw [find, h.plain]
  simp only
  rw [if_pos ⟨trivial, h.keyed x⟩]

theorem find_whole (h : Puts sh s k new whole) : sh.find s k false whole = some (new none) := by
  obtain ⟨blank, top, rfl, hblank, -, htop⟩ := h.whole_eq
  rw [find, hblank]
  rw [find, htop]
  simp only [decide_true]
  exact find_new h none []

theorem find_put (h : Puts sh s k new whole) : ∀ (l : List α) (here seen : Bool), (here = false → seen = false) →
    ∃ x, sh.find s k here (sh.put s k new whole here seen l) = some (new x)
  | [], true, seen, _ => ⟨none, find_new h none []⟩
  | [], false, seen, hseen => by
    rw [put, hseen rfl]
    exact ⟨none, find_whole h⟩
  | a :: l, here, seen, hseen => by
    rw [put]
    cases ha : sh.header a with
    | some name =>
      cases here with
      | true => exact ⟨none, find_new h none _⟩
      | false =>
        simp only [Bool.false_eq_true, if_false]
        rw [find, ha]
        refine find_put h l _ _ (fun hname => ?_)
        rw [hseen rfl, hname]
        rfl
    | none =>
      simp only
      split
      next hkey =>
        obtain ⟨rfl, hkey⟩ := hkey
        exact ⟨some a, find_new h _ _⟩
      next hkey =>
        rw [find, ha]
        rw [if_neg hkey]
        exact find_put h l here seen hseen

theorem find_new_other (h : Puts sh s k new whole) {s' : S} {k' : K} {here' : Bool} (hother : here' = true → k' ≠ k)
    (x : Option α) (l : List α) : sh.find s' k' here' (new x :: l) = sh.find s' k' here' l := by
  rw [find, h.plain]
  refine if_neg (fun hk => hother hk.1 ?_)
  have hkeys := hk.2
  rw [h.keyed] at hkeys
  exact (Option.some.inj hkeys).symm

theorem find_put_other (h : Puts sh s k new whole) {s' : S} {k' : K} (hne : s' = s → k' ≠ k) :
    ∀ (l : List α) (here seen here' : Bool), (here = true → here' = true → s' = s) →
      sh.find s' k' here' (sh.put s k new whole here seen l) = sh.find s' k' here' l
  | [], true, seen, here', hsame => find_new_other h (fun hh => hne (hsame rfl hh)) none []
  | [], false, seen, here', _ => by
    rw [put]
    cases seen with
    | true => rfl
    | false =>
      obtain ⟨blank, top, rfl, hblank, hkey, htop⟩ := h.whole_eq
      show sh.find s' k' here' [blank, top, new none] = none
      have hskip : sh.find s' k' here' [blank, top, new none] = sh.find s' k' here' [top, new none] := by
        conv_lhs => rw [find, hblank]
        exact if_neg (fun hk => by rw [hkey] at hk; cases hk.2)
      rw [hskip, find, htop]
      simp only
      rw [find_new_other h (fun hh => hne (of_decide_eq_true hh).symm)]
      rfl
  | a :: l, here, seen, here', hsame => by
    rw [put]
    cases ha : sh.header a with
    | some name =>
      cases here with
      | true => exact find_new_other h (fun hh => hne (hsame rfl hh)) none _
      | false =>
        simp only [Bool.false_eq_true, if_false]
        rw [find, find, ha]
        refine find_put_other h hne l _ _ _ (fun hs hs' => ?_)
        rw [← of_decide_eq_true hs, ← of_decide_eq_true hs']
    | none =>
      simp only
      split
      next hkey =>
        obtain ⟨rfl, hkey⟩ := hkey
        rw [find_new_other h (fun hh => hne (hsame rfl hh)), find, ha]
        refine (if_neg (fun hk => hne (hsame rfl hk.1) ?_)).symm
        rw [hkey] at hk
        exact (Option.some.inj hk.2).symm
      · rw [find, find, ha]
        simp only
        split
        · rfl
        · exact find_put_other h hne l here seen here' hsame

theorem put_put {new' : Option α → α} {whole' : List α} (h : Puts sh s k new whole)
    (hnew : ∀ x, new' (some (new x)) = new' x) (hwhole : sh.put s k new' whole' false false whole = whole') :
    ∀ (l : List α) (here seen : Bool),
      (here = false → seen = false) →
      sh.put s k new' whole' here seen (sh.put s k new whole here seen l) = sh.put s k new' whole' here seen l := by
  have hreplace : ∀ x l seen, sh.put s k new' whole' true seen (new x :: l) = new' x :: l := by
    intro x l seen
    rw [put, h.plain]
    simp only
    rw [if_pos ⟨trivial, h.keyed x⟩, hnew]
  intro l
  induction l with
  | nil =>
    intro here seen hseen
    cases here with
    | true => exact hreplace none [] seen
    | false =>
      rwa [hseen rfl]
  | cons a l ih =>
    intro here seen hseen
    rw [put, put]
    cases ha : sh.header a with
    | some name =>
      cases here with
      | true => exact hreplace none (a :: l) seen
      | false =>
        simp only [Bool.false_eq_true, if_false]
        rw [put, ha]
        simp only [Bool.false_eq_true, if_false]
        rw [ih]
        intro hname
        rw [hseen rfl, hname]
        rfl
    | none =>
      simp only
      split
      next hkey =>
        obtain ⟨rfl, hkey⟩ := hkey
        exact hreplace (some a) l seen
      next hkey =>
        rw [put, ha]
        rw [if_neg hkey, ih here seen hseen]

/-- What `put` makes of a list, and which items it keeps. -/
inductive Placed (new : Option α → α) (whole : List α) : (l kept made : List α) → Prop where
  | put (x : Option α) (l : List α) : Placed new whole (x.toList ++ l) l (new x :: l)
  | none : Placed new whole [] [] []
  | whole : Placed new whole [] [] whole
  | keep (a : α) {l kept made : List α} :
      Placed new whole l kept made → Placed new whole (a :: l) (a :: kept) (a :: made)

theorem placed : ∀ (l : List α) (here seen : Bool),
    Placed new whole l (sh.others s k here l) (sh.put s k new whole here seen l)
  | [], true, _ => .put none []
  | [], false, true => .none
  | [], false, false => .whole
  | a :: l, here, seen => by
    rw [put, others]
    cases sh.header a with
    | some name =>
      cases here with
      | true => exact .put none (a :: l)
      | false => exact .keep a (placed l _ _)
    | none =>
      simp only
      split
      · exact .put (some a) l
      · exact .keep a (placed l here seen)

namespace Placed

variable {l kept made : List α}

theorem sublist (h : Placed new whole l kept made) : kept.Sublist made := by
  induction h with
  | put => exact sublist_cons_self _ _
  | none | whole => exact nil_sublist _
  | keep a _ ih => exact ih.cons_cons a

theorem subset (h : Placed new whole l kept made) : kept ⊆ l := by
  induction h with
  | put x l => exact subset_append_right _ _
  | none | whole => exact nil_subset _
  | keep a _ ih => exact cons_subset_cons a ih

theorem mem (h : Placed new whole l kept made) {b : α} (hb : b ∈ made) :
    b ∈ kept ∨ (∃ x, b = new x ∧ ∀ a, x = some a → a ∈ l) ∨ b ∈ whole := by
  induction h with
  | put x l =>
    rcases mem_cons.1 hb with rfl | hb
    · exact .inr (.inl ⟨x, rfl, fun a ha => by simp [ha]⟩)
    · exact .inl hb
  | none => cases hb
  | whole => exact .inr (.inr hb)
  | keep a _ ih =>
    rcases mem_cons.1 hb with rfl | hb
    · exact .inl mem_cons_self
    · exact (ih hb).imp (mem_cons_of_mem a)
        (.imp_left fun ⟨x, hx, hmem⟩ => ⟨x, hx, fun a' ha' => mem_cons_of_mem a (hmem a' ha')⟩)

theorem sum_le (f : α → Nat) (hnew : ∀ x, f (new x) = 0) (hwhole : (whole.map f).sum = 0)
    (h : Placed new whole l kept made) : (made.map f).sum ≤ (kept.map f).sum := by
  induction h with
  | put x l => rw [map_cons, sum_cons, hnew, Nat.zero_add]
  | none => exact Nat.le_refl _
  | whole => exact Nat.le_of_eq hwhole
  | keep a _ ih =>
    rw [map_cons, sum_cons, map_cons, sum_cons]
    exact Nat.add_le_add_left ih _

end Placed

end

section

variable {α S K : Type} [DecidableEq S] [DecidableEq K] {sh : Sections α S K} {s : S} {k : K} {f : α → α}

def Invisible (sh : Sections α S K) (f : α → α) : Prop := ∀ a, sh.header (f a) = sh.header a ∧ sh.key (f a) = sh.key a

theorem find_map (h : Invisible sh f) : ∀ (l : List α) (here : Bool),
    sh.find s k here (l.map f) = (sh.find s k here l).map f
  | [], _ => rfl
  | a :: l, here => by
    rw [map_cons, find, find, (h a).1, (h a).2]
    cases sh.header a with
    | some name => exact find_map h l _
    | none =>
      simp only
      split
      · rfl
      · exact find_map h l here

theorem put_map {new : Option α → α} {whole : List α} (h : Invisible sh f) (hnone : f (new none) = new none)
    (hsome : ∀ a, sh.key a = some k → new (some (f a)) = f (new (some a))) (hwhole : whole.map f = whole) :
    ∀ (l : List α) (here seen : Bool),
      sh.put s k new whole here seen (l.map f) = (sh.put s k new whole here seen l).map f
  | [], here, seen => by
    rw [map_nil, put]
    split
    · rw [map_singleton, hnone]
    · split
      · rfl
      · exact hwhole.symm
  | a :: l, here, seen => by
    rw [map_cons, put, put, (h a).1, (h a).2]
    cases sh.header a with
    | some name =>
      cases here with
      | true => simp [hnone]
      | false => exact congrArg (f a :: ·) (put_map h hnone hsome hwhole l _ _)
    | none =>
      simp only
      split
      next hkey => rw [map_cons, hsome a hkey.2]
      · exact congrArg (f a :: ·) (put_map h hnone hsome hwhole l here seen)

end

end Sections

end TailscaleVita
