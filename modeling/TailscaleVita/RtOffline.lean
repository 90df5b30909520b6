import TailscaleVita.RtFatal
/-!
# RtOffline — the clock of an Offline period (`tailscale-vita/src/lifecycle.rs`)

`tick` sets and clears `offline_since` where it changes the state. `mark_fatal`, `set_needs_login` and `set_stopped`
write the state alone: on an Offline tracker they leave the clock running.
-/
namespace TailscaleVita.Rt

open LifecycleOp

def LifecycleOp.tickTime : LifecycleOp → Option Instant
  | .tick now => some now
  | _ => none

def LifecycleOp.setsState (op : LifecycleOp) : Bool := op.marksFatal || op.overwrites

def LifecycleTracker.dumps (t : LifecycleTracker) : LifecycleOp → Bool
  | .tick now =>
    !((t.transition now).heartbeat now).offlineDiagFired &&
      (((t.transition now).heartbeat now).diagnose now).offlineDiagFired
  | _ => false

/-- A tracker that is watched: the tick that entered the current Offline period, and how many diagnostics were
dumped in it and in other states. -/
structure Watched where
  tracker : LifecycleTracker := {}
  entered : Option Instant := none
  dumps : Nat := 0
  strays : Nat := 0

def Watched.step (w : Watched) (op : LifecycleOp) : Watched :=
  let t := w.tracker.apply op
  let dumped := if w.tracker.dumps op then 1 else 0
  if t.state = .offline then
    if w.tracker.state = .offline then { w with tracker := t, dumps := w.dumps + dumped }
    else { w with tracker := t, entered := op.tickTime, dumps := dumped }
  else { w with tracker := t, entered := none, dumps := 0, strays := w.strays + dumped }

/-- The offline clock is right: it runs exactly while the state is Offline, since the tick that entered the period;
and the diagnostic comes once in a period at most, and never outside of one. -/
structure ClockRight (w : Watched) : Prop where
  runs : w.tracker.offlineSince.isSome = true ↔ w.tracker.state = .offline
  since : w.tracker.state = .offline → w.tracker.offlineSince = w.entered
  once : w.dumps ≤ 1
  only : w.strays = 0

namespace LifecycleTracker

inductive Ticked (t : LifecycleTracker) (now : Instant) (dumped : Bool) (t' : LifecycleTracker) : Prop where
  | stays (hstate : t'.state = t.state) (hsince : t'.offlineSince = t.offlineSince)
      (hfired : t'.offlineDiagFired = (t.offlineDiagFired || dumped))
      (hdumped : dumped = true → t.offlineDiagFired = false ∧ t.offlineSince ≠ none)
  | enters (hfrom : t.state ≠ .offline) (hstate : t'.state = .offline) (hsince : t'.offlineSince = some now)
      (hfired : t'.offlineDiagFired = false) (hdumped : dumped = false)
  | leaves (hstate : t'.state ≠ .offline) (hsince : t'.offlineSince = none) (hdumped : dumped = false)

theorem heartbeat_clock (u : LifecycleTracker) (now : Instant) : (u.heartbeat now).state = u.state ∧
    (u.heartbeat now).offlineSince = u.offlineSince ∧ (u.heartbeat now).offlineDiagFired = u.offlineDiagFired := by
  unfold heartbeat
  repeat' split
  all_goals exact ⟨rfl, rfl, rfl⟩

theorem diagnose_clock (u : LifecycleTracker) (now : Instant) :
    (u.diagnose now).state = u.state ∧ (u.diagnose now).offlineSince = u.offlineSince ∧
      (u.diagnose now = u ∨ u.offlineDiagFired = false ∧ (u.diagnose now).offlineDiagFired = true ∧
        ∃ since, u.offlineSince = some since ∧ offlineDiagAfter ≤ now - since) := by
  unfold diagnose
  split
  next since hsince =>
    split
    next hdue => exact ⟨rfl, rfl, .inr ⟨hdue.1, rfl, since, hsince, hdue.2⟩⟩
    · exact ⟨rfl, rfl, .inl rfl⟩
  · exact ⟨rfl, rfl, .inl rfl⟩

variable (t : LifecycleTracker)

theorem ticked (now : Instant) : Ticked t now (t.dumps (.tick now)) (t.tick now) := by
  simp only [tick, dumps]
  obtain ⟨hstate, hsince, hfired⟩ := heartbeat_clock (t.transition now) now
  generalize (t.transition now).heartbeat now = u at hstate hsince hfired ⊢
  obtain ⟨hstate', hsince', hdiag⟩ := diagnose_clock u now
  -- a transition has just set the clock, or stopped it, so that the diagnostic does not come with it
  have hquiet : (∀ since, u.offlineSince = some since → now = since) → u.diagnose now = u := by
    intro hnew
    refine hdiag.resolve_right ?_
    rintro ⟨-, -, since, hat, hdue⟩
    rw [hnew since hat, Nat.sub_self] at hdue
    exact absurd hdue (by decide)
  unfold transition at hstate hsince hfired
  simp only at hstate hsince hfired
  split at hstate
  next hsame =>
    rw [if_pos hsame] at hsince hfired
    refine .stays (hstate'.trans hstate) (hsince'.trans hsince) ?_ (fun hdumped => ?_)
    · rw [← hfired]
      rcases hdiag with hd | ⟨hno, hyes, -⟩
      · simp [hd]
      · simp [hno, hyes]
    · rcases hdiag with hd | ⟨hno, hyes, since, hat, -⟩
      · simp [hd] at hdumped
      · exact ⟨hfired.symm.trans hno, by rw [← hsince, hat]; exact Option.some_ne_none _⟩
  next hchange =>
    rw [if_neg hchange] at hsince hfired
    split at hstate
    next hoffline =>
      rw [if_pos hoffline] at hsince hfired
      have hd : u.diagnose now = u := hquiet (fun since hat => Option.some.inj (hsince.symm.trans hat))
      rw [hd]
      exact .enters (fun h => hchange (hoffline.trans h.symm)) (hstate.trans hoffline) hsince hfired (by simp)
    next hother =>
      rw [if_neg hother] at hsince hfired
      have hd : u.diagnose now = u := hquiet (fun since hat => by rw [hsince] at hat; cases hat)
      rw [hd]
      exact .leaves (fun h => hother (hstate.symm.trans h)) hsince (by simp)

theorem apply_clock {op : LifecycleOp} (hop : op.tickTime = none) :
    (t.apply op).offlineSince = t.offlineSince ∧ (t.apply op).offlineDiagFired = t.offlineDiagFired ∧
      t.dumps op = false := by
  cases op with
  | tick now => cases hop
  | clearNeedsLogin =>
    simp only [apply, clearNeedsLogin]
    split <;> exact ⟨rfl, rfl, rfl⟩
  | clearStopped =>
    simp only [apply, clearStopped]
    split <;> exact ⟨rfl, rfl, rfl⟩
  | _ => exact ⟨rfl, rfl, rfl⟩

theorem apply_offline_iff {op : LifecycleOp} (hop : op.tickTime = none) :
    (t.apply op).state = .offline ↔ t.state = .offline ∧ op.setsState = false := by
  cases op with
  | tick now => cases hop
  | markFatal kind reason => cases kind <;> simp [apply, markFatal, setsState, marksFatal]
  | clearNeedsLogin =>
    simp only [apply, clearNeedsLogin]
    split <;> simp_all [setsState, marksFatal, overwrites]
  | clearStopped =>
    simp only [apply, clearStopped]
    split <;> simp_all [setsState, marksFatal, overwrites]
  | _ =>
    simp [apply, setNeedsLogin, setStopped, recordMapEvent, recordDerpRx, recordControlReconnect, recordDerpReconnect,
      setsState, marksFatal, overwrites]

end LifecycleTracker

open LifecycleTracker

structure ClockInv (w : Watched) : Prop where
  since : w.tracker.state = .offline → w.entered ≠ none ∧ w.tracker.offlineSince = w.entered
  dumps : w.dumps = if w.tracker.state = .offline ∧ w.tracker.offlineDiagFired = true then 1 else 0

section

variable {w : Watched} {op : LifecycleOp}

theorem step_on (hfrom : w.tracker.state = .offline) (hto : (w.tracker.apply op).state = .offline) :
    w.step op = { w with
      tracker := w.tracker.apply op, dumps := w.dumps + if w.tracker.dumps op then 1 else 0 } := by
  simp [Watched.step, if_pos hto, if_pos hfrom]

theorem step_off (hto : (w.tracker.apply op).state ≠ .offline) :
    w.step op = { w with
      tracker := w.tracker.apply op, entered := none, dumps := 0
      strays := w.strays + if w.tracker.dumps op then 1 else 0 } := by
  simp [Watched.step, if_neg hto]

theorem clock_on (hi : ClockInv w) (hfrom : w.tracker.state = .offline) (hto : (w.tracker.apply op).state = .offline)
    (hsince : (w.tracker.apply op).offlineSince = w.tracker.offlineSince)
    (hfired : (w.tracker.apply op).offlineDiagFired = (w.tracker.offlineDiagFired || w.tracker.dumps op))
    (hdumped : w.tracker.dumps op = true → w.tracker.offlineDiagFired = false) :
    ClockInv (w.step op) ∧ (ClockRight w → ClockRight (w.step op)) := by
  have hdumps := hi.dumps
  rw [step_on hfrom hto]
  have hcount : (w.dumps + if w.tracker.dumps op then 1 else 0) =
      if (w.tracker.apply op).offlineDiagFired = true then 1 else 0 := by
    rw [hdumps, hfired]
    cases hd : w.tracker.dumps op with
    | true => simp [hdumped hd]
    | false => simp [hfrom]
  refine ⟨⟨fun _ => ?_, ?_⟩, fun hr => ⟨?_, fun _ => ?_, ?_, hr.only⟩⟩
  · rw [hsince]
    exact hi.since hfrom
  · simpa [hto] using hcount
  · simp [hsince, hr.runs, hfrom, hto]
  · exact hsince.trans (hi.since hfrom).2
  · refine hcount.trans_le ?_
    split <;> simp

theorem clock_off (hto : (w.tracker.apply op).state ≠ .offline)
    (hdumped : w.tracker.dumps op = true → w.tracker.offlineSince ≠ none ∧ w.tracker.state ≠ .offline) :
    ClockInv (w.step op) ∧
      (ClockRight w → (ClockRight (w.step op) ↔ (w.tracker.apply op).offlineSince = none)) := by
  rw [step_off hto]
  refine ⟨⟨fun h => absurd h hto, by simp [hto]⟩, fun hr => ⟨fun hr' => ?_, fun hnone => ?_⟩⟩
  · have hruns := hr'.runs
    simpa [hto] using hruns
  · refine ⟨by simp [hnone, hto], fun h => absurd h hto, Nat.zero_le 1, ?_⟩
    have hno : w.tracker.dumps op = false := by
      rw [Bool.eq_false_iff]
      intro hd
      obtain ⟨hsome, hstate⟩ := hdumped hd
      exact hstate (hr.runs.1 (Option.isSome_iff_ne_none.2 hsome))
    simpa [hno] using hr.only

theorem clock_step (hi : ClockInv w) (op : LifecycleOp) : ClockInv (w.step op) ∧
    (ClockRight w → (ClockRight (w.step op) ↔ (w.tracker.state = .offline → op.setsState = false))) := by
  cases hop : op.tickTime with
  | none =>
    obtain ⟨hsince, hfired, hdumps⟩ := w.tracker.apply_clock hop
    have hoffline := w.tracker.apply_offline_iff hop
    by_cases hto : (w.tracker.apply op).state = .offline
    · obtain ⟨hfrom, hset⟩ := hoffline.1 hto
      obtain ⟨hinv, hright⟩ := clock_on hi hfrom hto hsince (by rw [hfired, hdumps, Bool.or_false]) (by simp [hdumps])
      exact ⟨hinv, fun hr => iff_of_true (hright hr) (fun _ => hset)⟩
    · obtain ⟨hinv, hright⟩ := clock_off hto (by simp [hdumps])
      refine ⟨hinv, fun hr => (hright hr).trans ?_⟩
      rw [hsince, ← Option.not_isSome_iff_eq_none, hr.runs]
      rw [hoffline] at hto
      exact ⟨fun hno h => absurd h hno, fun hset h => hto ⟨h, hset h⟩⟩
  | some now =>
    obtain rfl : op = .tick now := by
      cases op <;> simp [tickTime] at hop
      rw [hop]
    have hset : (tick now).setsState = false := rfl
    cases w.tracker.ticked now with
    | stays hstate hsince hfired hdumped =>
      by_cases hfrom : w.tracker.state = .offline
      · obtain ⟨hinv, hright⟩ := @clock_on w (.tick now) hi hfrom (hstate.trans hfrom) hsince hfired
          (fun hd => (hdumped hd).1)
        exact ⟨hinv, fun hr => iff_of_true (hright hr) (fun _ => hset)⟩
      · obtain ⟨hinv, hright⟩ := @clock_off w (.tick now) (fun h => hfrom (hstate.symm.trans h))
          (fun hd => ⟨(hdumped hd).2, hfrom⟩)
        refine ⟨hinv, fun hr => iff_of_true ((hright hr).2 ?_) (fun _ => hset)⟩
        rw [← Option.not_isSome_iff_eq_none]
        exact fun h => hfrom (hr.runs.1 (hsince ▸ h))
    | enters hfrom hto hsince hfired hdumped =>
      have hstep : w.step (.tick now) =
          { w with tracker := w.tracker.tick now, entered := some now, dumps := 0 } := by
        simp [Watched.step, apply, hto, hfrom, hdumped, tickTime]
      rw [hstep]
      refine ⟨⟨fun _ => ⟨Option.some_ne_none _, hsince⟩, by simp [hfired]⟩, fun hr => iff_of_true ?_ (fun _ => hset)⟩
      exact ⟨by simp [hsince, hto], fun _ => hsince, Nat.zero_le 1, hr.only⟩
    | leaves hto hsince hdumped =>
      obtain ⟨hinv, hright⟩ := @clock_off w (.tick now) hto (by simp [hdumped])
      exact ⟨hinv, fun hr => iff_of_true ((hright hr).2 hsince) (fun _ => hset)⟩

end

/-- **The offline clock.**  Over every sequence of operations on a new tracker: the clock runs exactly while the state
is Offline, since the tick that entered the current Offline period, and the diagnostic comes at most once in each period
and only there, if and only if no operation sets the state of a tracker that is Offline. -/
theorem offline_clock_iff (ops : List LifecycleOp) :
    (∀ ops₁, ops₁ <+: ops → ClockRight (run Watched.step {} ops₁)) ↔
      Along Watched.step (fun w op => w.tracker.state = .offline → op.setsState = false) {} ops :=
  run_always_iff_of_inv ClockInv (fun _ op hi _ => (clock_step hi op).1) (fun _ op hi hr => (clock_step hi op).2 hr) ops
    {} ⟨nofun, rfl⟩ ⟨by decide, nofun, Nat.zero_le 1, rfl⟩

/-- **The diagnostic of a parked tracker**: ten minutes after it was Offline its clock still runs, and the diagnostic
is dumped while it is Stopped. -/
theorem offline_clock_parked :
    let ops := List.replicate 5 .recordControlReconnect ++ [.tick 0, .setStopped, .tick (secs 600)]
    let w := run Watched.step {} ops
    w.tracker.state = .stopped ∧ w.tracker.offlineSince = some 0 ∧ w.strays = 1 := by
  decide +kernel

end TailscaleVita.Rt
