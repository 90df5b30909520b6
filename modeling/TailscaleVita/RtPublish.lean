import TailscaleVita.RtPass
/-!
# RtPublish — the lifecycle the node publishes (`publish_snapshot`, `publish_parked_state`, `publish_fatal_state`)

The LocalAPI reads the lifecycle from the published snapshot, not from the tracker. A pass publishes when it parks or
logs out, when a fatal error ends the loop, and when it reads an event. An attempt to establish a session that fails
and is to be retried does none of these.
-/
namespace TailscaleVita.Rt

open Ctl (NodeKey NetMapSnapshot ControlError MapClient MapEvent)
open Wg (Boringtun)

structure Report where
  lifecycle : OnlineState := .connecting
  fatalReason : Option ControlError := none
  publishedAt : Instant := 0

structure PublishTimes where
  snapshotAt : Instant := 0
  checkedAt : Instant := 0
  republishedAt : Instant := 0

def republishAfter : Nat := secs 3

namespace Report

def publishSnapshot (t : LifecycleTracker) (publishedAt : Instant) : Report := ⟨t.state, t.fatalReason, publishedAt⟩

def publishParkedState (r : Report) (t : LifecycleTracker) : Report := { r with lifecycle := t.state }

def publishFatalState (r : Report) (t : LifecycleTracker) : Report :=
  { r with lifecycle := t.state, fatalReason := t.fatalReason }

section

variable {τ : Type} (b : Boringtun τ)

def receive (fatal : Bool) (ord : HashOrder NodeKey) (sr : LoopState τ × Report) (d : Drained) : LoopState τ × Report :=
  let s := sr.1.receive fatal ord d
  (s,
    if !fatal && decide (d.signal = .setWantRunning false) && sr.1.wantRunning then
      sr.2.publishParkedState s.lifecycle
    else sr.2)

def drain (r : Report) (s : LoopState τ) (p : Pass) : Report :=
  (p.signals.foldl (receive s.lifecycle.state.isFatal p.ord) (s, r)).2

def fail (r : Report) (s : LoopState τ) (e : ControlError) : Report :=
  match classifyControlError e with
  | .authFatal => r.publishFatalState (s.lifecycle.markFatal .auth e)
  | .securityFatal => r.publishFatalState (s.lifecycle.markFatal .security e)
  | .transient => r

def idle (r : Report) (t : LoopState τ) (p : Pass) : Report :=
  if t.loginInteractiveRequested ∧ t.wantRunning then r
  else if t.logoutRequested then
    match p.logout with
    | .failed => r
    | .done _ _ => r.publishParkedState t.lifecycle.setNeedsLogin
  else if t.wantRunning = false then r.publishParkedState t.lifecycle.setStopped
  else if t.lifecycle.state = .needsLogin then r.publishParkedState t.lifecycle
  else if p.sleepStops then r
  else
    match bootstrapControlSession t.dir p.register p.opened with
    | .error e => r.fail t e
    | .ok _ => r

def poll (r : Report) (s : LoopState τ) (m : MapClient) (p : Pass) (times : PublishTimes) : Report :=
  match (m.nextEvent s.dir p.ord p.polled).2.2 with
  | .error e => r.fail s e
  | .ok event =>
    let tracker := (s.handleEvent b p event).lifecycle
    let r := match event with
      | .snapshot _ => publishSnapshot tracker times.snapshotAt
      | _ => r
    if republishAfter ≤ times.checkedAt - r.publishedAt then publishSnapshot tracker times.republishedAt else r

def pass (r : Report) (s : LoopState τ) (p : Pass) (times : PublishTimes) : Report :=
  if s.exit.isSome ∨ p.shouldStop = true then r
  else
    match s.beforePoll p with
    | .done _ => (r.drain s p).idle (s.drain p) p
    | .listen s' m => (r.drain s p).poll b s' m p times

end

end Report

section

variable {τ : Type} (b : Boringtun τ)

structure Reported (τ : Type) where
  loop : LoopState τ
  report : Report := {}

def Reported.step (s : Reported τ) (e : Pass × PublishTimes) : Reported τ where
  loop := s.loop.step b e.1
  report := s.report.pass b s.loop e.1 e.2

/-! ## A streak of failed attempts -/

def Pass.NoDown (p : Pass) : Prop := ∀ d ∈ p.signals, d.signal ≠ .setWantRunning false

/-- An attempt to establish a session fails, with an error that is retried, and the node is not parked. -/
structure FailedAttempt (s : LoopState τ) (p : Pass) : Prop extends Bootstraps s p where
  noDown : p.NoDown
  failed : ∃ e, bootstrapControlSession (s.drain p).dir p.register p.opened = .error e ∧
    classifyControlError e = .transient

structure FailedLogout (s : LoopState τ) (p : Pass) : Prop extends Entered s p where
  noDown : p.NoDown
  asked : (s.drain p).logoutRequested = true
  failed : p.logout = .failed

theorem reconnects_drain (s : LoopState τ) (p : Pass) :
    (s.drain p).lifecycle.consecutiveControlReconnects = s.lifecycle.consecutiveControlReconnects := by
  have hclear : ∀ t : LifecycleTracker,
      t.clearStopped.consecutiveControlReconnects = t.consecutiveControlReconnects := by
    intro t
    unfold LifecycleTracker.clearStopped
    split <;> rfl
  refine run_keeps (fun t : LoopState τ =>
    t.lifecycle.consecutiveControlReconnects = s.lifecycle.consecutiveControlReconnects) (fun t d ht => ?_)
    p.signals s rfl
  unfold LoopState.receive
  split
  · exact ht
  · split
    · exact ht
    · split
      · exact ht
      · exact (hclear _).trans ht
    · split
      · exact ht
      · exact ht
    · exact ht
    · exact ht

variable {p : Pass}

theorem drain_noDown (h : p.NoDown) (s : LoopState τ) (r : Report) : r.drain s p = r := by
  have hfold : ∀ (ds : List Drained) (t : LoopState τ), (∀ d ∈ ds, d.signal ≠ .setWantRunning false) →
      (ds.foldl (Report.receive s.lifecycle.state.isFatal p.ord) (t, r)).2 = r := by
    intro ds
    induction ds with
    | nil => exact fun _ _ => rfl
    | cons d ds ih =>
      intro t hds
      obtain ⟨hd, hds⟩ := List.forall_mem_cons.1 hds
      have hone : Report.receive s.lifecycle.state.isFatal p.ord (t, r) d =
          (t.receive s.lifecycle.state.isFatal p.ord d, r) := by
        unfold Report.receive
        simp [hd]
      rw [List.foldl_cons, hone]
      exact ih _ hds
  exact hfold p.signals s h

theorem pass_of_done {s s' : LoopState τ} (h : Entered s p) (hdone : s.beforePoll p = .done s') (r : Report)
    (times : PublishTimes) : r.pass b s p times = (r.drain s p).idle (s.drain p) p ∧ s.step b p = s' := by
  unfold Report.pass LoopState.step
  rw [h.running, h.goesOn, hdone]
  exact ⟨rfl, rfl⟩

variable {s : LoopState τ}

theorem FailedAttempt.beforePoll (h : FailedAttempt s p) :
    ∃ s', s.beforePoll p = .done s' ∧ s'.lifecycle = (s.drain p).lifecycle := by
  obtain ⟨e, hboot, hclass⟩ := h.failed
  have hboot' : bootstrapControlSession (s.drained p).dir p.register p.opened = .error e := hboot
  rw [h.toWanted.beforePoll, h.noSession]
  rw [if_neg h.loggedIn]
  unfold LoopState.reconnect
  rw [if_neg (Bool.eq_false_iff.1 h.slept)]
  simp only
  rw [hboot']
  refine ⟨_, rfl, ?_⟩
  unfold LoopState.fail
  rw [hclass]
  rfl

theorem failedAttempt_unnoticed (h : FailedAttempt s p) (r : Report) (times : PublishTimes) :
    r.pass b s p times = r ∧ (s.step b p).lifecycle.consecutiveControlReconnects =
      s.lifecycle.consecutiveControlReconnects := by
  obtain ⟨e, hboot, hclass⟩ := h.failed
  obtain ⟨s', hdone, hlife⟩ := h.beforePoll
  obtain ⟨hpass, hstep⟩ := pass_of_done b h.toEntered hdone r times
  have hwant : ¬ (s.drain p).wantRunning = false := by
    rw [h.wanted]
    decide
  constructor
  · rw [hpass, drain_noDown h.noDown]
    unfold Report.idle
    rw [if_neg h.noLogin, if_neg (Bool.eq_false_iff.1 h.noLogout), if_neg hwant, if_neg h.loggedIn,
      if_neg (Bool.eq_false_iff.1 h.slept), hboot]
    simp only
    unfold Report.fail
    rw [hclass]
  · rw [hstep, hlife]
    exact reconnects_drain s p

theorem failedLogout_unnoticed (h : FailedLogout s p) (r : Report) (times : PublishTimes) :
    r.pass b s p times = r ∧ (s.step b p).lifecycle.consecutiveControlReconnects =
      s.lifecycle.consecutiveControlReconnects := by
  have hasked : (s.drained p).logoutRequested = true := h.asked
  have hdone : s.beforePoll p = .done ((s.drained p).logOut p) := by
    rw [h.toEntered.beforePoll]
    unfold LoopState.proceed
    rw [if_pos hasked]
  obtain ⟨hpass, hstep⟩ := pass_of_done b h.toEntered hdone r times
  constructor
  · rw [hpass, drain_noDown h.noDown]
    unfold Report.idle
    rw [if_neg h.noLogin, if_pos h.asked, h.failed]
  · rw [hstep]
    unfold LoopState.logOut
    rw [h.failed]
    exact reconnects_drain s p

/-- **A streak of failed attempts publishes `Offline` exactly when `Offline` was published before it**: from every
state, for a streak of any length, with failed logouts in between. -/
theorem offline_published_iff (s : Reported τ) (streak : List (Pass × PublishTimes))
    (h : Along (Reported.step b) (fun s e => FailedAttempt s.loop e.1 ∨ FailedLogout s.loop e.1) s streak) :
    let t := run (Reported.step b) s streak
    (t.report.lifecycle = .offline ↔ s.report.lifecycle = .offline) ∧
      t.loop.lifecycle.consecutiveControlReconnects = s.loop.lifecycle.consecutiveControlReconnects := by
  intro t
  have hkeep : t.report = s.report ∧
      t.loop.lifecycle.consecutiveControlReconnects = s.loop.lifecycle.consecutiveControlReconnects := by
    refine run_inv (fun t : Reported τ => t.report = s.report ∧
      t.loop.lifecycle.consecutiveControlReconnects = s.loop.lifecycle.consecutiveControlReconnects)
      (fun t e ht he => ?_) streak s ⟨rfl, rfl⟩ h
    have hone : t.report.pass b t.loop e.1 e.2 = t.report ∧
        (t.loop.step b e.1).lifecycle.consecutiveControlReconnects =
          t.loop.lifecycle.consecutiveControlReconnects :=
      he.elim (fun ha => failedAttempt_unnoticed b ha t.report e.2) (fun hl => failedLogout_unnoticed b hl t.report e.2)
    exact ⟨hone.1.trans ht.1, hone.2.trans ht.2⟩
  rw [hkeep.1]
  exact ⟨Iff.rfl, hkeep.2⟩

/-! ## A control server that cannot be reached -/

open Ctl (nodeKeyOrder)

def unreachable : Pass := { ord := nodeKeyOrder, register := .error .io }

structure Sessionless (s : LoopState τ) : Prop where
  running : s.exit = none
  wanted : s.wantRunning = true
  noLogin : s.loginInteractiveRequested = false
  noLogout : s.logoutRequested = false
  noSession : s.mapOpt = none
  loggedIn : s.lifecycle.state ≠ .needsLogin

theorem sessionless_unreachable (h : Sessionless s) :
    FailedAttempt s unreachable ∧ Sessionless (s.step b unreachable) := by
  have hfails : FailedAttempt s unreachable := by
    refine ⟨⟨⟨⟨h.running, rfl, fun hl => ?_⟩, h.noLogout, h.wanted⟩, h.noSession, h.loggedIn, rfl⟩,
      nofun, .io, rfl, rfl⟩
    have hflag : s.loginInteractiveRequested = true := hl.1
    rw [h.noLogin] at hflag
    cases hflag
  refine ⟨hfails, ?_⟩
  have hwent := went b s unreachable
  generalize s.step b unreachable = s' at hwent ⊢
  cases hwent with
  | left hleft => exact absurd h.running hleft
  | stopped _ hstop => cases hstop
  | relogin _ _ hl => exact absurd hl hfails.noLogin
  | logout _ hout => exact absurd hout (Bool.eq_false_iff.1 hfails.noLogout)
  | parked _ _ hwant => exact absurd hfails.wanted (Bool.eq_false_iff.1 hwant)
  | loggedOut _ _ hstate => exact absurd hstate h.loggedIn
  | backingOff _ _ _ hsleep => cases hsleep
  | unauthorized _ hboot => cases hboot
  | refused e _ hboot =>
    cases hboot
    exact ⟨h.running, h.wanted, rfl, h.noLogout, h.noSession, h.loggedIn⟩
  | polled hl =>
    cases hl with
    | held _ hm => exact absurd (h.noSession.symm.trans hm) (Option.some_ne_none _).symm
    | fresh _ hboot => cases hboot

theorem along_unreachable : ∀ (n : Nat) (s : Reported τ), Sessionless s.loop →
    Along (Reported.step b) (fun s e => FailedAttempt s.loop e.1 ∨ FailedLogout s.loop e.1) s
      (List.replicate n (unreachable, ⟨0, 0, 0⟩))
  | 0, _, _ => trivial
  | n + 1, s, h => by
    obtain ⟨hfails, hnext⟩ := sessionless_unreachable b h
    exact ⟨.inl hfails, along_unreachable n _ hnext⟩

end

def losing : Pass := { ord := Ctl.nodeKeyOrder, polled := .error .mapConnectionLost }

def outage : List (Pass × PublishTimes) :=
  List.replicate 5 (losing, ⟨0, 0, 0⟩) ++
    [({ ord := Ctl.nodeKeyOrder }, ⟨0, 0, 0⟩), ({ ord := Ctl.nodeKeyOrder }, ⟨0, secs 4, secs 4⟩), (losing, ⟨0, 0, 0⟩)]

theorem offline_published_iff_outage :
    ∃ s₀, LoopState.up Wg.clearTunn 0 {} true (.ok .authorized) (.ok ()) = .ok s₀ ∧
      (run (Reported.step Wg.clearTunn) (run (Reported.step Wg.clearTunn) { loop := s₀ } outage)
        (List.replicate 5 (unreachable, ⟨0, 0, 0⟩))).report.lifecycle = .offline := by
  refine ⟨authorizedLoop, up_authorizedLoop, ?_⟩
  have hloop : Sessionless (run (Reported.step Wg.clearTunn) { loop := authorizedLoop } outage).loop := by
    exact ⟨Option.isNone_iff_eq_none.1 (by decide +kernel), by decide +kernel, by decide +kernel, by decide +kernel,
      Option.isNone_iff_eq_none.1 (by decide +kernel), by decide +kernel⟩
  refine (offline_published_iff Wg.clearTunn _ _ (along_unreachable Wg.clearTunn 5 _ hloop)).1.2 ?_
  decide +kernel

/-- **Five failed attempts in a row, and `Online` is what is published**: a session that was up is lost, and control
cannot be reached again. -/
theorem online_published_while_unreachable : let up : List (Pass × PublishTimes) :=
      [({ ord := Ctl.nodeKeyOrder, polled := .frame {} {}, aliveRegions := 1 }, ⟨0, 0, 0⟩),
       ({ ord := Ctl.nodeKeyOrder, aliveRegions := 1 }, ⟨0, secs 4, secs 4⟩), (losing, ⟨0, 0, 0⟩)]
    ∃ s₀, LoopState.up Wg.clearTunn 0 {} true (.ok .authorized) (.ok ()) = .ok s₀ ∧
      let t := run (Reported.step Wg.clearTunn) { loop := s₀ } (up ++ List.replicate 5 (unreachable, ⟨0, 0, 0⟩))
      t.loop.trace = List.replicate 5 .bootstrap ∧ t.loop.wantRunning = true ∧ t.loop.lifecycle.state = .online ∧
        t.report.lifecycle = .online := by
  intro up
  exact ⟨_, rfl, by decide +kernel, by decide +kernel, by decide +kernel, by decide +kernel⟩

end TailscaleVita.Rt
