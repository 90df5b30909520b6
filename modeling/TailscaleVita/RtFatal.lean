import TailscaleVita.RtLifecycle
import TailscaleVita.Run
/-!
# RtFatal — what a terminal state survives

`compute_next_state` keeps a fatal state; `set_needs_login` and `set_stopped` write over it without looking, and leave
its reason behind.
-/
namespace TailscaleVita.Rt

open List

def LifecycleOp.marksFatal : LifecycleOp → Bool
  | .markFatal _ _ => true
  | _ => false

def LifecycleOp.overwrites : LifecycleOp → Bool
  | .setNeedsLogin => true
  | .setStopped => true
  | _ => false

namespace LifecycleTracker

variable (t : LifecycleTracker)

theorem computeNextState_isFatal (now : Instant) :
    (t.computeNextState now).isFatal = t.state.isFatal := by
  unfold computeNextState
  cases hf : t.state.isFatal with
  | true =>
    rwa [if_pos rfl]
  | false =>
    rw [if_neg Bool.false_ne_true]
    split
    · exact hf
    · split
      · rfl
      · split
        · rfl
        · split
          · rfl
          · split <;> rfl

theorem tick_fatal (now : Instant) :
    (t.tick now).state.isFatal = t.state.isFatal ∧ (t.tick now).fatalReason = t.fatalReason := by
  have htrans : (t.transition now).state.isFatal = t.state.isFatal ∧
      (t.transition now).fatalReason = t.fatalReason := by
    unfold transition
    simp only
    split
    · exact ⟨rfl, rfl⟩
    · split <;> exact ⟨computeNextState_isFatal t now, rfl⟩
  have hheart : ∀ u : LifecycleTracker,
      (u.heartbeat now).state = u.state ∧ (u.heartbeat now).fatalReason = u.fatalReason := fun u => by
    unfold heartbeat
    split
    · split <;> exact ⟨rfl, rfl⟩
    · exact ⟨rfl, rfl⟩
  have hdiag : ∀ u : LifecycleTracker,
      (u.diagnose now).state = u.state ∧ (u.diagnose now).fatalReason = u.fatalReason := fun u => by
    unfold diagnose
    split
    · split <;> exact ⟨rfl, rfl⟩
    · exact ⟨rfl, rfl⟩
  unfold tick
  rwa [(hdiag _).1, (hdiag _).2, (hheart _).1, (hheart _).2]

theorem apply_isFatal (op : LifecycleOp) :
    (t.apply op).state.isFatal = (op.marksFatal || (!op.overwrites && t.state.isFatal)) := by
  cases op with
  | markFatal kind reason => cases kind <;> rfl
  | clearNeedsLogin =>
    simp only [apply, clearNeedsLogin]
    split
    next h =>
      rw [h]
      rfl
    · rfl
  | clearStopped =>
    simp only [apply, clearStopped]
    split
    next h =>
      rw [h]
      rfl
    · rfl
  | tick now => exact (tick_fatal t now).1
  | _ => rfl

theorem apply_fatalReason (op : LifecycleOp) :
    (t.apply op).fatalReason.isSome = (op.marksFatal || t.fatalReason.isSome) := by
  cases op with
  | clearNeedsLogin =>
    simp only [apply, clearNeedsLogin]
    split <;> rfl
  | clearStopped =>
    simp only [apply, clearStopped]
    split <;> rfl
  | tick now =>
    simp only [apply]
    rw [(tick_fatal t now).2]
    rfl
  | _ => rfl

theorem run_fatalReason : ∀ (ops : List LifecycleOp) (t : LifecycleTracker),
    (run apply t ops).fatalReason.isSome = (ops.any LifecycleOp.marksFatal || t.fatalReason.isSome)
  | [], _ => rfl
  | op :: ops, t => by
    rw [run_cons, run_fatalReason ops, apply_fatalReason, any_cons, Bool.or_left_comm, Bool.or_assoc]

def NoneOverwritten (ops : List LifecycleOp) : Prop :=
  ops.Pairwise (fun earlier later => earlier.marksFatal = true → later.overwrites = false)

theorem run_isFatal (ops : List LifecycleOp) (h : NoneOverwritten ops) :
    (run apply {} ops).state.isFatal = ops.any LifecycleOp.marksFatal := by
  -- from the end: the last operation against all marks before it
  induction ops using List.reverseRecOn with
  | nil => rfl
  | append_singleton ops op ih =>
    obtain ⟨hops, -, hlast⟩ := pairwise_append.1 h
    rw [run_append, run_cons, run_nil, apply_isFatal, ih hops, any_append, any_cons, any_nil,
      Bool.or_false, Bool.or_comm]
    cases ho : op.overwrites with
    | false => rw [Bool.not_false, Bool.true_and]
    | true =>
      have hno : ops.any LifecycleOp.marksFatal = false := by
        rw [any_eq_false]
        intro e he hm
        have := hlast e he op mem_cons_self hm
        rw [ho] at this
        cases this
      rw [hno]
      rfl

/-- **Fatal states are absorbing and carry their reason exactly when no setter runs after a mark**, over every sequence
of operations on a new tracker. -/
theorem fatal_absorbing_iff (ops : List LifecycleOp) :
    ((∀ before after, before ++ after <+: ops → (run apply {} before).state.isFatal = true →
        (run apply {} (before ++ after)).state.isFatal = true) ∧
      ∀ before, before <+: ops →
        ((run apply {} before).fatalReason.isSome = true ↔ (run apply {} before).state.isFatal = true)) ↔
      NoneOverwritten ops := by
  constructor
  · rintro ⟨-, hreason⟩
    unfold NoneOverwritten
    rw [pairwise_iff_forall_sublist]
    intro earlier later hsub hmark
    -- right after the later operation the reason is there, so it cannot have been a setter
    by_contra hset
    have hset' : later.overwrites = true := by
      cases ho : later.overwrites with
      | true => rfl
      | false => exact absurd ho hset
    obtain ⟨before, after, rfl, he, hl⟩ := cons_sublist_iff.1 hsub
    obtain ⟨mid, rest, rfl⟩ := append_of_mem (singleton_sublist.1 hl)
    have hpre : (before ++ mid) ++ [later] <+: before ++ (mid ++ later :: rest) := ⟨rest, by simp⟩
    have hiff := hreason _ hpre
    have hsome : ((before ++ mid) ++ [later]).any LifecycleOp.marksFatal = true :=
      any_eq_true.2 ⟨earlier, by simp [he], hmark⟩
    rw [run_fatalReason, hsome, run_append, run_cons, run_nil, apply_isFatal, hset'] at hiff
    have hmarks := hiff.1 rfl
    cases later <;> cases hset' <;> cases hmarks
  · intro h
    have hfatal : ∀ before, before <+: ops →
        (run apply {} before).state.isFatal = before.any LifecycleOp.marksFatal := fun before hb =>
      run_isFatal before (h.sublist hb.sublist)
    refine ⟨fun before after hb hf => ?_, fun before hb => ?_⟩
    · rw [hfatal before ((prefix_append before after).trans hb)] at hf
      rw [hfatal _ hb, any_append, hf]
      rfl
    · rw [run_fatalReason, hfatal before hb]
      simp

/-- **A park ends a fatal state and keeps its reason.** -/
theorem fatal_state_parked :
    let failed := run apply {} [.markFatal .auth .authRejected]
    let parked := run apply {} [.markFatal .auth .authRejected, .setStopped]
    failed.state = .authFailed ∧ parked.state = .stopped ∧ parked.fatalReason = some .authRejected := by
  decide

end LifecycleTracker

end TailscaleVita.Rt
