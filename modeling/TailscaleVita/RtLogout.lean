import TailscaleVita.RtPass
/-!
# RtLogout — what keeps a logged-out loop from bootstrapping

After a logout the loop holds `NeedsLogin` and no session. `Gate` follows what the signals do to that: a park
overwrites `NeedsLogin` with `Stopped`, and leaving the park, or a logout that fails while parked, leads to a loop that
wants to run and is no longer known to be logged out.
-/
namespace TailscaleVita.Rt

open LoopState

open Ctl (NodeKey ControlError MapClient MapEvent)
open Wg (Boringtun)

inductive Gate where
  | loggedOut
  | parked
  | opened
deriving DecidableEq

def Gate.signal : Gate → ControlSignal → Gate
  | .loggedOut, .setWantRunning false => .parked
  | .parked, .setWantRunning true => .opened
  | .opened, .setWantRunning false => .parked
  | g, _ => g

def Gate.drained (g : Gate) (p : Pass) : Gate := p.signals.foldl (fun g d => g.signal d.signal) g

def Pass.logoutAsked (p : Pass) : Bool := p.signals.any (fun d => decide (d.signal = .logout))

def Gate.pass (g : Gate) (p : Pass) : Gate :=
  if p.logoutAsked then
    match p.logout with
    | .done _ _ => .loggedOut
    | .failed => if g.drained p = .parked then .opened else g.drained p
  else g.drained p

def Pass.NoLogin (p : Pass) : Prop := ∀ d ∈ p.signals, d.signal ≠ .loginInteractive

instance (p : Pass) : Decidable p.NoLogin := inferInstanceAs (Decidable (∀ d ∈ p.signals, d.signal ≠ .loginInteractive))

section

variable {τ : Type} (b : Boringtun τ)

def LoopState.bootstraps (s : LoopState τ) : Nat := s.trace.count .bootstrap

variable {p : Pass}

theorem reconnect_trace (s : LoopState τ) (hsleep : p.sleepStops = false) :
    (finish b p (s.reconnect p)).trace = s.trace ++ [.bootstrap] := by
  unfold reconnect
  simp only [hsleep, Bool.false_eq_true, if_false]
  cases bootstrapControlSession s.dir p.register p.opened with
  | ok outcome =>
    cases outcome with
    | session m => exact poll_trace b _ m p
    | needsInteractiveLogin => rfl
  | error e => exact fail_trace _ e rfl

structure AtGate (g : Gate) (s : LoopState τ) : Prop where
  session : s.mapOpt = none
  noLogin : s.loginInteractiveRequested = false
  want : s.wantRunning = true ↔ g ≠ .parked
  loggedOut : g = .loggedOut → s.lifecycle.state = .needsLogin
  parked : g = .parked → s.lifecycle.state = .stopped
  opened : g = .opened → s.lifecycle.state ≠ .needsLogin ∧ s.lifecycle.state.isFatal = false

variable {s : LoopState τ} {g : Gate}

theorem AtGate.notFatal (h : AtGate g s) : s.lifecycle.state.isFatal = false := by
  cases g with
  | loggedOut =>
    rw [h.loggedOut rfl]
    rfl
  | parked =>
    rw [h.parked rfl]
    rfl
  | opened => exact (h.opened rfl).2

theorem receive_atGate (h : AtGate g s) (ord : HashOrder NodeKey) (d : Drained)
    (hd : d.signal ≠ .loginInteractive) : AtGate (g.signal d.signal) (s.receive false ord d) := by
  unfold receive
  simp only [Bool.false_eq_true, if_false]
  cases hs : d.signal with
  | forceReconnect =>
    cases g <;> exact ⟨rfl, h.noLogin, h.want, h.loggedOut, h.parked, h.opened⟩
  | logout =>
    cases g <;> exact ⟨h.session, h.noLogin, h.want, h.loggedOut, h.parked, h.opened⟩
  | loginInteractive => exact absurd hs hd
  | setWantRunning desired =>
    by_cases hg : g = .parked
    · -- parked: only a resume does anything
      subst hg
      have hno : ¬ s.wantRunning = true := fun hw => h.want.1 hw rfl
      cases desired with
      | true =>
        have hclear : s.lifecycle.clearStopped.state = .connecting := by
          unfold LifecycleTracker.clearStopped
          rw [if_pos (h.parked rfl)]
        rw [if_neg hno]
        refine ⟨rfl, h.noLogin, ⟨(fun _ => by decide), fun _ => rfl⟩, nofun, nofun, fun _ => ?_⟩
        rw [hclear]
        exact ⟨by decide, rfl⟩
      | false =>
        simp only
        rwa [if_neg hno]
    · have hw := h.want.2 hg
      cases desired with
      | true =>
        have hsame : g.signal (.setWantRunning true) = g := by
          cases g with
          | parked => exact absurd rfl hg
          | loggedOut | opened => rfl
        rwa [if_pos hw, hsame]
      | false =>
        have hpark : g.signal (.setWantRunning false) = .parked := by
          cases g <;> rfl
        simp only
        rw [if_pos hw, hpark]
        exact ⟨rfl, h.noLogin, ⟨nofun, fun hne => absurd rfl hne⟩, nofun, fun _ => rfl, fun hg => by cases hg⟩

theorem drain_atGate (h : AtGate g s) (hp : p.NoLogin) : AtGate (g.drained p) (s.drain p) := by
  unfold drain Gate.drained
  rw [h.notFatal]
  have hasked : Along (fun (g : Gate) (d : Drained) => g.signal d.signal) (fun _ d => d.signal ≠ .loginInteractive) g
      p.signals := along_of_forall _ p.signals g (fun _ d hd => hp d hd)
  exact run_sim (fun s g => AtGate g s) (fun s g d hg hd => receive_atGate hg p.ord d hd) p.signals s g h hasked

theorem receive_setWantRunning (ord : HashOrder NodeKey) (s : LoopState τ) {d : Drained} {desired : Bool}
    (hs : d.signal = .setWantRunning desired) :
    (s.receive false ord d).loginInteractiveRequested = s.loginInteractiveRequested ∧
      (s.receive false ord d).logoutRequested = s.logoutRequested := by
  unfold receive
  by_cases hw : s.wantRunning = true
  · cases desired <;> simp [hs, hw, clearEnginePeers]
  · cases desired <;> simp [hs, hw]

theorem receive_logoutRequested (ord : HashOrder NodeKey) (s : LoopState τ) (d : Drained) :
    (s.receive false ord d).logoutRequested = (s.logoutRequested || decide (d.signal = .logout)) := by
  cases hs : d.signal with
  | setWantRunning desired => simp [(receive_setWantRunning ord s hs).2]
  | _ => simp [receive, hs]

theorem foldl_receive_logoutRequested (ord : HashOrder NodeKey) : ∀ (ds : List Drained) (s : LoopState τ),
    (ds.foldl (receive false ord) s).logoutRequested =
      (s.logoutRequested || ds.any (fun d => decide (d.signal = .logout)))
  | [], s => by simp
  | d :: ds, s => by
    rw [List.foldl_cons, foldl_receive_logoutRequested ord ds, receive_logoutRequested, List.any_cons, Bool.or_assoc]

structure Settled (g : Gate) (s : LoopState τ) : Prop extends AtGate g s where
  noLogout : s.logoutRequested = false

theorem Settled.drain_logoutRequested (h : Settled g s) (p : Pass) : (s.drain p).logoutRequested = p.logoutAsked := by
  unfold drain
  rw [h.notFatal, foldl_receive_logoutRequested, h.noLogout, Bool.false_or]
  rfl

theorem step_of_settled (h : Settled g s) (hp : p.NoLogin) (hexit : s.exit = none) (hgo : p.shouldStop = false) :
    ∃ t : LoopState τ, AtGate (g.drained p) t ∧ t.trace = s.trace ∧ t.exit = none ∧
      t.logoutRequested = p.logoutAsked ∧ s.step b p = finish b p (t.proceed p) := by
  have hdrain := drain_atGate h.toAtGate hp
  obtain ⟨htrace, hexit'⟩ := drain_trace s p
  refine ⟨{ s.drain p with loginInteractiveRequested := false }, ⟨hdrain.session, rfl, hdrain.want, hdrain.loggedOut,
    hdrain.parked, hdrain.opened⟩, htrace, hexit'.trans hexit, h.drain_logoutRequested p, ?_⟩
  simp only [step, hexit, hgo, Option.isSome_none, Bool.false_eq_true, if_false, beforePoll, hdrain.noLogin, false_and]

theorem logOut_settled {t : LoopState τ} (h : AtGate g t) (p : Pass) :
    (t.logOut p).bootstraps = t.bootstraps ∧ (t.logOut p).exit = t.exit ∧
      Settled (match p.logout with
        | .done _ _ => .loggedOut
        | .failed => if g = .parked then .opened else g) (t.logOut p) := by
  unfold logOut bootstraps
  cases p.logout with
  | done seqFile handleFile =>
    refine ⟨by simp [performLogout], rfl, ?_⟩
    simp only
    exact ⟨⟨rfl, h.noLogin, ⟨(fun _ => by decide), fun _ => rfl⟩, fun _ => rfl, nofun, fun hg => by cases hg⟩, rfl⟩
  | failed =>
    refine ⟨by simp [performLogout], rfl, ?_, rfl⟩
    by_cases hg : g = .parked
    · simp only [if_pos hg]
      refine ⟨h.session, h.noLogin, ⟨(fun _ => by decide), fun _ => rfl⟩, nofun, nofun, fun _ => ?_⟩
      have hstate : t.lifecycle.state = .stopped := h.parked hg
      simp only [performLogout]
      rw [hstate]
      exact ⟨by decide, rfl⟩
    · simp only [if_neg hg]
      exact ⟨h.session, h.noLogin, ⟨fun _ => hg, fun _ => rfl⟩, h.loggedOut, h.parked, h.opened⟩

theorem proceed_closed {t : LoopState τ} (h : Settled g t) (p : Pass) (hg : g ≠ .opened) :
    ∃ t', t.proceed p = .done t' ∧ t'.bootstraps = t.bootstraps ∧ (t'.exit ≠ none ∨ Settled g t') := by
  have hsleep : ∀ u : LoopState τ, Settled g u → (u.sleep p).exit ≠ none ∨ Settled g (u.sleep p) := by
    intro u hu
    unfold sleep
    split
    · exact .inl (Option.some_ne_none _)
    · exact .inr hu
  unfold proceed bootstraps
  simp only [h.noLogout, Bool.false_eq_true, if_false]
  cases g with
  | opened => exact absurd rfl hg
  | loggedOut =>
    have hw := h.want.2 (by decide)
    simp only [hw, if_true, h.session, h.loggedOut rfl]
    exact ⟨_, rfl, by rw [sleep_trace], hsleep t h⟩
  | parked =>
    have hw : ¬ t.wantRunning = true := fun hw => h.want.1 hw rfl
    rw [if_neg hw]
    exact ⟨_, rfl, by rw [sleep_trace], hsleep _ ⟨⟨h.session, h.noLogin, h.want, nofun, fun _ => rfl,
      fun hg => by cases hg⟩, rfl⟩⟩

theorem step_closed (h : Settled g s) (hp : p.NoLogin) (hclosed : g.pass p ≠ .opened) :
    (s.step b p).bootstraps = s.bootstraps ∧ ((s.step b p).exit ≠ none ∨ Settled (g.pass p) (s.step b p)) := by
  by_cases hexit : s.exit = none
  · by_cases hgo : p.shouldStop = false
    · obtain ⟨t, hgate, htrace, htexit, hlogout, hstep⟩ := step_of_settled b h hp hexit hgo
      have hboot : t.bootstraps = s.bootstraps := by
        unfold bootstraps
        rw [htrace]
      rw [hstep]
      cases hasked : p.logoutAsked with
      | true =>
        rw [hasked] at hlogout
        obtain ⟨hb, -, hs⟩ := logOut_settled hgate p
        simp only [proceed, hlogout, if_true, finish]
        refine ⟨hb.trans hboot, .inr ?_⟩
        unfold Gate.pass
        rwa [if_pos hasked]
      | false =>
        rw [hasked] at hlogout
        have hpass : g.pass p = g.drained p := by
          unfold Gate.pass
          rw [hasked]
          rfl
        rw [hpass] at hclosed ⊢
        obtain ⟨t', hproceed, hb, hs⟩ := proceed_closed ⟨hgate, hlogout⟩ p hclosed
        rw [hproceed]
        exact ⟨hb.trans hboot, hs⟩
    · have hstop : p.shouldStop = true := by
        cases hs : p.shouldStop with
        | true => rfl
        | false => exact absurd hs hgo
      simp only [step, hexit, hstop, Option.isSome_none, Bool.false_eq_true, if_false, if_true]
      exact ⟨rfl, .inl (Option.some_ne_none _)⟩
  · have hleft : s.step b p = s := by
      unfold step
      rw [if_pos (Option.isSome_iff_ne_none.2 hexit)]
    rw [hleft]
    exact ⟨rfl, .inl hexit⟩

theorem step_bootstraps_iff (h : Settled g s) (hp : p.NoLogin) (hexit : s.exit = none) (hgo : p.shouldStop = false)
    (hsleep : p.sleepStops = false) :
    (s.step b p).bootstraps ≠ s.bootstraps ↔ g.drained p = .opened ∧ p.logoutAsked = false := by
  obtain ⟨t, hgate, htrace, -, hlogout, hstep⟩ := step_of_settled b h hp hexit hgo
  have hboot : t.bootstraps = s.bootstraps := by
    unfold bootstraps
    rw [htrace]
  rw [hstep, ← hboot]
  cases hasked : p.logoutAsked with
  | true =>
    rw [hasked] at hlogout
    simp only [proceed, hlogout, if_true, finish]
    exact ⟨fun hne => absurd (logOut_settled hgate p).1 hne, fun hand => by cases hand.2⟩
  | false =>
    rw [hasked] at hlogout
    by_cases hg : g.drained p = .opened
    · have hw := hgate.want.2 (by rw [hg]; decide)
      simp only [proceed, hlogout, hw, hgate.session, (hgate.opened hg).1, Bool.false_eq_true, if_false, if_true]
      refine ⟨fun _ => ⟨hg, trivial⟩, fun _ => ?_⟩
      unfold bootstraps
      rw [reconnect_trace b t hsleep, List.count_append]
      simp
    · obtain ⟨t', hproceed, hb, -⟩ := proceed_closed ⟨hgate, hlogout⟩ p hg
      rw [hproceed]
      exact ⟨fun hne => absurd hb hne, fun hand => absurd hand.1 hg⟩

theorem settled_of_logout (h : (s.step b p).trace = s.trace ++ [.logout true]) : Settled .loggedOut (s.step b p) := by
  rcases step_trace b s p with hsame | hboot | ⟨-, hstep⟩
  · rw [hsame, List.self_eq_append_right] at h
    cases h
  · rw [hboot, List.append_cancel_left_eq] at h
    cases h
  · rw [hstep] at h ⊢
    unfold logOut at h ⊢
    cases hlogout : p.logout with
    | done seqFile handleFile =>
      exact ⟨⟨rfl, rfl, ⟨(fun _ => by decide), fun _ => rfl⟩, fun _ => rfl, nofun, fun hg => by cases hg⟩, rfl⟩
    | failed =>
      rw [hlogout] at h
      simp [performLogout, drained_trace] at h

/-- **After a logout nothing is bootstrapped while the gate stays closed**: in every run, as long as no interactive
login is asked for, no park is left and no logout fails while parked. The next pass then bootstraps exactly when its
signals open the gate and ask for no logout. -/
theorem no_bootstrap_while_logged_out (s₀ : LoopState τ) (p : Pass) (passes : List Pass)
    (hout : (s₀.step b p).trace = s₀.trace ++ [.logout true])
    (h : Along Gate.pass (fun g q => q.NoLogin ∧ g.pass q ≠ .opened) .loggedOut passes) :
    let s := run (step b) (s₀.step b p) passes
    let g := run Gate.pass .loggedOut passes
    s.bootstraps = (s₀.step b p).bootstraps ∧
      ∀ q : Pass, s.exit = none → q.NoLogin → q.shouldStop = false → q.sleepStops = false →
        ((s.step b q).bootstraps ≠ s.bootstraps ↔ g.drained q = .opened ∧ q.logoutAsked = false) := by
  intro s g
  have hrun : s.bootstraps = (s₀.step b p).bootstraps ∧ (s.exit ≠ none ∨ Settled g s) := by
    refine run_sim (fun (s : LoopState τ) g => s.bootstraps = (s₀.step b p).bootstraps ∧ (s.exit ≠ none ∨ Settled g s))
      (fun t g q hr hok => ?_) passes _ _ ⟨rfl, .inr (settled_of_logout b hout)⟩ h
    rcases hr.2 with hexit | hs
    · have hleft : t.step b q = t := by
        unfold step
        rw [if_pos (Option.isSome_iff_ne_none.2 hexit)]
      rw [hleft]
      exact ⟨hr.1, .inl hexit⟩
    · obtain ⟨hb, hs'⟩ := step_closed b hs hok.1 hok.2
      exact ⟨hb.trans hr.1, hs'⟩
  refine ⟨hrun.1, fun q hexit hq hgo hsleep => ?_⟩
  exact step_bootstraps_iff b (hrun.2.resolve_left (not_not.2 hexit)) hq hexit hgo hsleep

end

def signalled (signal : ControlSignal) (logout : LogoutResult) : Pass :=
  { ord := Ctl.nodeKeyOrder, signals := [⟨signal, .removed, .removed⟩], logout := logout }

theorem no_bootstrap_while_logged_out_parked : let s₀ : LoopState Unit :=
      { wantRunning := true, lifecycle := {}, mapOpt := none, engine := Wg.Engine.new Wg.clearTunn 0 [], dir := {} }
    let p := signalled .logout (.done .removed .removed)
    let passes := [signalled .forceReconnect .failed, signalled (.setWantRunning true) .failed,
      signalled (.setWantRunning false) .failed]
    (s₀.step Wg.clearTunn p).trace = [.logout true] ∧
      (run (step Wg.clearTunn) (s₀.step Wg.clearTunn p) passes).bootstraps = 0 := by
  intro s₀ p passes
  have hout : (s₀.step Wg.clearTunn p).trace = s₀.trace ++ [.logout true] := by decide +kernel
  have h := no_bootstrap_while_logged_out Wg.clearTunn s₀ p passes hout
    ⟨⟨by decide, by decide⟩, ⟨by decide, by decide⟩, ⟨by decide, by decide⟩, trivial⟩
  refine ⟨hout, h.1.trans ?_⟩
  unfold bootstraps
  rw [hout]
  decide

/-- **Down and up after a logout log the node in again**: the park forgets that it was logged out, and so does a logout
that fails while parked. -/
theorem bootstraps_after_logout : let s₀ : LoopState Unit :=
      { wantRunning := true, lifecycle := {}, mapOpt := none, engine := Wg.Engine.new Wg.clearTunn 0 [], dir := {} }
    let p := signalled .logout (.done .removed .removed)
    let resumed := run (step Wg.clearTunn) s₀
      [p, signalled (.setWantRunning false) .failed, signalled (.setWantRunning true) .failed]
    let failed := run (step Wg.clearTunn) s₀
      [p, signalled (.setWantRunning false) .failed, signalled .logout .failed, { ord := Ctl.nodeKeyOrder }]
    resumed.trace = [.logout true, .bootstrap] ∧ failed.trace = [.logout true, .logout false, .bootstrap] := by
  intro s₀ p resumed failed
  exact ⟨by decide +kernel, by decide +kernel⟩

end TailscaleVita.Rt
