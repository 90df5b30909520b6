import Mathlib.Algebra.Ring.Nat
import Mathlib.Data.List.Basic
/-!
# Run — runs of a step function, and what holds along them

A system is a step function; a run is the fold of its inputs. `Along ok` says that every input of a run meets a
condition at the state it arrives in. `run_inv` is the one induction every invariant of the development goes through.
-/
namespace TailscaleVita

section

variable {σ ε : Type} (step : σ → ε → σ)

def run (s : σ) (es : List ε) : σ := es.foldl step s

/-- Every input of a run meets `ok` at the state it arrives in. -/
def Along (ok : σ → ε → Prop) : σ → List ε → Prop
  | _, [] => True
  | s, e :: es => ok s e ∧ Along ok (step s e) es

instance decidableAlong (ok : σ → ε → Prop) [∀ s e, Decidable (ok s e)] :
    (s : σ) → (es : List ε) → Decidable (Along step ok s es)
  | _, [] => isTrue trivial
  | s, e :: es =>
    have := decidableAlong ok (step s e) es
    inferInstanceAs (Decidable (ok s e ∧ Along step ok (step s e) es))

theorem run_nil (s : σ) : run step s [] = s := rfl

theorem run_cons (s : σ) (e : ε) (es : List ε) : run step s (e :: es) = run step (step s e) es := rfl

theorem run_append (s : σ) (es fs : List ε) : run step s (es ++ fs) = run step (run step s es) fs := by
  unfold run
  rw [List.foldl_append]

theorem along_true : ∀ (es : List ε) (s : σ), Along step (fun _ _ => True) s es
  | [], _ => trivial
  | e :: es, s => ⟨trivial, along_true es (step s e)⟩

theorem along_of_forall {ok : σ → ε → Prop} : ∀ (es : List ε) (s : σ), (∀ s, ∀ e ∈ es, ok s e) → Along step ok s es
  | [], _, _ => trivial
  | e :: es, s, h =>
    ⟨h s e List.mem_cons_self, along_of_forall es (step s e) (fun s e' he => h s e' (List.mem_cons_of_mem e he))⟩

theorem along_mono {step : σ → ε → σ} {ok ok' : σ → ε → Prop} (h : ∀ s e, ok s e → ok' s e) :
    ∀ (es : List ε) (s : σ), Along step ok s es → Along step ok' s es
  | [], _, _ => trivial
  | e :: es, s, ha => ⟨h s e ha.1, along_mono h es (step s e) ha.2⟩

theorem along_append {step : σ → ε → σ} {ok : σ → ε → Prop} (fs : List ε) :
    ∀ (es : List ε) (s : σ), Along step ok s (es ++ fs) ↔ Along step ok s es ∧ Along step ok (run step s es) fs
  | [], _ => (and_iff_right trivial).symm
  | e :: es, s => (and_congr_right fun _ => along_append fs es (step s e)).trans and_assoc.symm

theorem along_of_split {step : σ → ε → σ} {ok : σ → ε → Prop} : ∀ (es : List ε) (s : σ),
    (∀ es1 e es2, es = es1 ++ e :: es2 → ok (run step s es1) e) → Along step ok s es
  | [], _, _ => trivial
  | e :: es, s, h => ⟨h [] e es rfl, along_of_split es (step s e) fun es1 e' es2 he =>
      h (e :: es1) e' es2 (congrArg (List.cons e) he)⟩

theorem along_map {σ' : Type} {step : σ → ε → σ} {step' : σ' → ε → σ'} {ok : σ' → ε → Prop} (f : σ → σ')
    (hf : ∀ s e, f (step s e) = step' (f s) e) :
    ∀ (es : List ε) (s : σ), Along step (fun s e => ok (f s) e) s es ↔ Along step' ok (f s) es
  | [], _ => Iff.rfl
  | e :: es, s => and_congr_right fun _ => by rw [← hf]; exact along_map f hf es (step s e)

theorem run_inv {step : σ → ε → σ} {ok : σ → ε → Prop} (inv : σ → Prop) (hs : ∀ s e, inv s → ok s e → inv (step s e)) :
    ∀ (es : List ε) (s : σ), inv s → Along step ok s es → inv (run step s es)
  | [], _, hi, _ => hi
  | e :: es, s, hi, h => run_inv inv hs es (step s e) (hs s e hi h.1) h.2

theorem run_keeps {step : σ → ε → σ} (inv : σ → Prop) (hs : ∀ s e, inv s → inv (step s e)) (es : List ε) (s : σ)
    (h : inv s) : inv (run step s es) :=
  run_inv inv (fun s e hi _ => hs s e hi) es s h (along_true step es s)

theorem along_of_inv {step : σ → ε → σ} {ok ok' : σ → ε → Prop} (inv : σ → Prop)
    (hs : ∀ s e, inv s → ok s e → inv (step s e)) (h : ∀ s e, inv s → ok s e → ok' s e) :
    ∀ (es : List ε) (s : σ), inv s → Along step ok s es → Along step ok' s es
  | [], _, _, _ => trivial
  | e :: es, s, hi, ha => ⟨h s e hi ha.1, along_of_inv inv hs h es (step s e) (hs s e hi ha.1) ha.2⟩

theorem along_iff_of_inv {step : σ → ε → σ} {ok ok' : σ → ε → Prop} (inv : σ → Prop)
    (hs : ∀ s e, inv s → inv (step s e)) (h : ∀ s e, inv s → (ok s e ↔ ok' s e)) :
    ∀ (es : List ε) (s : σ), inv s → (Along step ok s es ↔ Along step ok' s es)
  | [], _, _ => Iff.rfl
  | e :: es, s, hi => and_congr (h s e hi) (along_iff_of_inv inv hs h es (step s e) (hs s e hi))

theorem run_always_iff_of_inv {step : σ → ε → σ} {ok : σ → ε → Prop} {fact : σ → Prop} (inv : σ → Prop)
    (hinv : ∀ s e, inv s → ok s e → inv (step s e)) (h : ∀ s e, inv s → fact s → (fact (step s e) ↔ ok s e)) :
    ∀ (es : List ε) (s : σ), inv s → fact s → ((∀ es1, es1 <+: es → fact (run step s es1)) ↔ Along step ok s es)
  | [], s, _, hs => ⟨fun _ => trivial, fun _ es1 hpre => by rw [List.prefix_nil.1 hpre]; exact hs⟩
  | e :: es, s, hi, hs => by
    constructor
    · intro hall
      have he : fact (step s e) := hall [e] ⟨es, rfl⟩
      have hok : ok s e := (h s e hi hs).1 he
      refine ⟨hok, (run_always_iff_of_inv inv hinv h es (step s e) (hinv s e hi hok) he).1 (fun es1 hpre => ?_)⟩
      exact hall (e :: es1) (List.cons_prefix_cons.2 ⟨rfl, hpre⟩)
    · rintro ⟨hok, halong⟩ es1 hpre
      have he : fact (step s e) := (h s e hi hs).2 hok
      match es1, hpre with
      | [], _ => exact hs
      | e' :: es1, hpre =>
        obtain ⟨rfl, htail⟩ := List.cons_prefix_cons.1 hpre
        exact (run_always_iff_of_inv inv hinv h es (step s e') (hinv s e' hi hok) he).2 halong es1 htail

theorem run_always_iff {step : σ → ε → σ} {ok : σ → ε → Prop} {fact : σ → Prop}
    (h : ∀ s e, fact s → (fact (step s e) ↔ ok s e)) (es : List ε) (s : σ) (hs : fact s) :
    (∀ es1, es1 <+: es → fact (run step s es1)) ↔ Along step ok s es :=
  run_always_iff_of_inv fact (fun s e hs hok => (h s e hs).2 hok) (fun s e hs _ => h s e hs) es s hs hs

theorem run_sim {σ' : Type} {step : σ → ε → σ} {step' : σ' → ε → σ'} {ok : σ' → ε → Prop} (rel : σ → σ' → Prop)
    (hs : ∀ s t e, rel s t → ok t e → rel (step s e) (step' t e)) :
    ∀ (es : List ε) (s : σ) (t : σ'), rel s t → Along step' ok t es → rel (run step s es) (run step' t es)
  | [], _, _, hr, _ => hr
  | e :: es, s, t, hr, h => run_sim rel hs es (step s e) (step' t e) (hs s t e hr h.1) h.2

theorem run_comes_about {step : σ → ε → σ} (fact : σ → Prop) : ∀ (es : List ε) (s : σ), ¬ fact s →
    fact (run step s es) → ∃ es1 e es2, es = es1 ++ e :: es2 ∧ ¬ fact (run step s es1) ∧ fact (step (run step s es1) e)
  | [], _, hs, h => absurd h hs
  | e :: es, s, hs, h => by
    by_cases he : fact (step s e)
    · exact ⟨[], e, es, rfl, hs, he⟩
    · obtain ⟨es1, e', es2, rfl, hno, hyes⟩ := run_comes_about fact es (step s e) he h
      exact ⟨e :: es1, e', es2, rfl, hno, hyes⟩

theorem run_last {α : Type} {step : σ → ε → σ} (view : σ → α) (given : ε → Option α)
    (h : ∀ s e, view (step s e) = (given e).getD (view s)) :
    ∀ (es : List ε) (s : σ), view (run step s es) = ((es.filterMap given).getLast?).getD (view s)
  | [], _ => rfl
  | e :: es, s => by
    rw [run_cons, run_last view given h es (step s e), h]
    cases he : given e with
    | none => rw [List.filterMap_cons_none he, Option.getD_none]
    | some a =>
      rw [List.filterMap_cons_some he, List.getLast?_cons]
      cases (es.filterMap given).getLast? <;> rfl

end

structure Latch (α : Type) where
  value : α
  isSet : Bool := false

section

variable {α β : Type}

def Latch.offer (l : Latch α) (ok : Bool) (a : α) : Latch α := if !l.isSet && ok then ⟨a, true⟩ else l

end

end TailscaleVita
