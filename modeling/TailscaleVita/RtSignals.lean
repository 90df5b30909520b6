import TailscaleVita.RtFatal
import TailscaleVita.RtLogout
/-!
# RtSignals — what a batch of control signals comes to (`run_event_loop`, `localapi/handlers.rs`)

A pass folds the signals it drains into flags and looks at them in a fixed order: a login first, then a logout, then
the park. The batch decides through the last `SetWantRunning`, whether a login is asked for, and whether a logout is.
-/
namespace TailscaleVita.Rt

open List
open Ctl (NodeKey ControlError MapClient)
open Wg (Boringtun)

inductive Reply where
  | accepted
  | fatal (state : OnlineState) (reason : Option ControlError)
  | stopped
  | shutDown
deriving DecidableEq

def Reply.status : Reply → Nat
  | .accepted => 202
  | .fatal _ _ => 409
  | .stopped => 409
  | .shutDown => 503

/-- `control_action` on the published lifecycle: the answer, and the queue behind it; `alive` says that the loop still
holds the receiving end. -/
def controlAction (state : OnlineState) (reason : Option ControlError) (alive : Bool) (signal : ControlSignal)
    (queue : List ControlSignal) : Reply × List ControlSignal :=
  if state.isFatal then (.fatal state reason, queue)
  else if state = .stopped ∧ signal = .loginInteractive then (.stopped, queue)
  else if alive then (.accepted, queue ++ [signal])
  else (.shutDown, queue)

theorem controlAction_accepted {state : OnlineState} {reason : Option ControlError} {alive : Bool}
    {signal : ControlSignal} {queue : List ControlSignal}
    (h : (controlAction state reason alive signal queue).1.status = 202) :
    (controlAction state reason alive signal queue).2 = queue ++ [signal] := by
  unfold controlAction at h ⊢
  split at h
  · cases h
  · split at h
    · cases h
    · split at h
      next hfatal hstopped halive => rw [if_neg hfatal, if_neg hstopped, if_pos halive]
      · cases h

/-! ## The batch -/

def ControlSignal.want (want : Bool) : ControlSignal → Bool
  | .setWantRunning desired => desired
  | _ => want

def Pass.wantAfter (p : Pass) (want : Bool) : Bool := p.signals.foldl (fun w d => d.signal.want w) want

def Pass.loginAsked (p : Pass) : Bool := p.signals.any (fun d => decide (d.signal = .loginInteractive))

def Pass.withoutLogout (p : Pass) : Pass :=
  { p with signals := p.signals.filter (fun d => decide (d.signal ≠ .logout)) }

section

variable {τ : Type} (b : Boringtun τ) (ord : HashOrder NodeKey)

theorem receive_wantRunning (s : LoopState τ) (d : Drained) :
    (s.receive false ord d).wantRunning = d.signal.want s.wantRunning := by
  unfold LoopState.receive
  cases hs : d.signal with
  | setWantRunning desired =>
    cases hw : s.wantRunning <;> cases desired <;> simp [hw, ControlSignal.want]
  | _ => rfl

theorem receive_loginRequested (s : LoopState τ) (d : Drained) :
    (s.receive false ord d).loginInteractiveRequested =
      (s.loginInteractiveRequested || decide (d.signal = .loginInteractive)) := by
  cases hs : d.signal with
  | setWantRunning desired => simp [(receive_setWantRunning ord s hs).1]
  | _ => simp [LoopState.receive, hs]

variable {s : LoopState τ}

theorem receive_notFatal (h : s.lifecycle.state.isFatal = false) (ord : HashOrder NodeKey)
    (d : Drained) : (s.receive false ord d).lifecycle.state.isFatal = false := by
  have hclear : s.lifecycle.clearStopped.state.isFatal = false := by
    have := LifecycleTracker.apply_isFatal s.lifecycle .clearStopped
    rwa [h] at this
  unfold LoopState.receive
  cases hs : d.signal with
  | setWantRunning desired =>
    cases desired with
    | true =>
      simp only [Bool.false_eq_true, if_false]
      split
      · exact h
      · exact hclear
    | false =>
      simp only [Bool.false_eq_true, if_false]
      split
      · rfl
      · exact h
  | _ => exact h

/-- A loop between two passes: no flag is left over, and the state is not fatal. -/
structure AtHead (s : LoopState τ) : Prop where
  noLogin : s.loginInteractiveRequested = false
  noLogout : s.logoutRequested = false
  notFatal : s.lifecycle.state.isFatal = false

theorem foldl_receive_decides (ord : HashOrder NodeKey) : ∀ (ds : List Drained) (s : LoopState τ),
    s.lifecycle.state.isFatal = false →
      let t := ds.foldl (LoopState.receive false ord) s
      t.wantRunning = ds.foldl (fun w d => d.signal.want w) s.wantRunning ∧
      t.loginInteractiveRequested =
        (s.loginInteractiveRequested || ds.any (fun d => decide (d.signal = .loginInteractive))) ∧
      t.lifecycle.state.isFatal = false
  | [], _, h => ⟨rfl, (Bool.or_false _).symm, h⟩
  | d :: ds, s, h => by
    obtain ⟨hwant, hlogin, hfatal⟩ := foldl_receive_decides ord ds (s.receive false ord d) (receive_notFatal h ord d)
    rw [receive_wantRunning] at hwant
    rw [receive_loginRequested, Bool.or_assoc] at hlogin
    exact ⟨hwant, hlogin, hfatal⟩

theorem AtHead.drain (h : AtHead s) (p : Pass) :
    (s.drain p).wantRunning = p.wantAfter s.wantRunning ∧ (s.drain p).loginInteractiveRequested = p.loginAsked ∧
      (s.drain p).logoutRequested = p.logoutAsked ∧ (s.drain p).lifecycle.state.isFatal = false := by
  obtain ⟨hwant, hlogin, hfatal⟩ := foldl_receive_decides p.ord p.signals s h.notFatal
  unfold LoopState.drain
  rw [h.notFatal]
  refine ⟨hwant, ?_, ?_, hfatal⟩
  · rw [hlogin, h.noLogin, Bool.false_or]
    rfl
  · rw [foldl_receive_logoutRequested, h.noLogout, Bool.false_or]
    rfl

/-! ## Between two passes no flag is left -/

theorem sleep_atHead (h : AtHead s) (p : Pass) : AtHead (s.sleep p) := by
  unfold LoopState.sleep
  split
  · exact ⟨h.noLogin, h.noLogout, h.notFatal⟩
  · exact h

theorem poll_atHead (h : AtHead s) (m : MapClient) (p : Pass) (hexit : (s.poll b m p).exit = none) :
    AtHead (s.poll b m p) := by
  have hsettle : ∀ t : LoopState τ, AtHead t → AtHead (t.settle p) := fun t ht => by
    refine ⟨ht.noLogin, ht.noLogout, ?_⟩
    simp only [LoopState.settle]
    rw [(LifecycleTracker.tick_fatal _ p.now).1]
    split
    · exact ht.notFatal
    · exact ht.notFatal
  unfold LoopState.poll at hexit ⊢
  simp only at hexit ⊢
  split at hexit
  · unfold LoopState.dropSession at hexit ⊢
    rw [fail_of_exit hexit]
    exact ⟨h.noLogin, h.noLogout, h.notFatal⟩
  next event _ =>
    refine hsettle _ ?_
    cases event <;> exact ⟨h.noLogin, h.noLogout, h.notFatal⟩

theorem atHead_step (s : LoopState τ) (p : Pass) (h : s.exit = none → AtHead s) :
    (s.step b p).exit = none → AtHead (s.step b p) := by
  have hdrained : ∀ he : s.exit = none, (s.drain p).logoutRequested = false → AtHead (s.drained p) :=
    fun he hlogout => ⟨rfl, hlogout, ((h he).drain p).2.2.2⟩
  have hwent := went b s p
  generalize s.step b p = s' at hwent ⊢
  intro hexit
  cases hwent with
  | left hleft => exact absurd hexit hleft
  | stopped | relogin => cases hexit
  | logout he hlogout =>
    have hfatal := ((h he.running).drain p).2.2.2
    unfold LoopState.logOut
    cases p.logout with
    | failed => exact ⟨rfl, rfl, hfatal⟩
    | done seqFile handleFile => exact ⟨rfl, rfl, rfl⟩
  | parked he hlogout =>
    refine sleep_atHead ?_ p
    exact ⟨rfl, hlogout, rfl⟩
  | loggedOut hw => exact sleep_atHead (hdrained hw.running hw.noLogout) p
  | backingOff | unauthorized => cases hexit
  | refused e hb =>
    rw [fail_of_exit hexit]
    obtain ⟨hlogin, hlogout, hfatal⟩ := hdrained hb.running hb.noLogout
    exact ⟨hlogin, hlogout, hfatal⟩
  | polled hlistens =>
    refine poll_atHead b ?_ _ p hexit
    cases hlistens with
    | held hw => exact hdrained hw.running hw.noLogout
    | fresh hb =>
      obtain ⟨hlogin, hlogout, hfatal⟩ := hdrained hb.running hb.noLogout
      exact ⟨hlogin, hlogout, hfatal⟩

theorem atHead_run (s0 : LoopState τ) (h0 : AtHead s0) (passes : List Pass) :
    (run (LoopState.step b) s0 passes).exit = none → AtHead (run (LoopState.step b) s0 passes) :=
  run_keeps (fun s : LoopState τ => s.exit = none → AtHead s) (atHead_step b) passes s0 (fun _ => h0)

theorem up_atHead {secret : BitVec 256} {dir : Ctl.StateDir} {want : Bool} {login : Except ControlError LoginOutcome}
    {opened : Except ControlError Unit} (h : LoopState.up b secret dir want login opened = .ok s) :
    AtHead s :=
  have hs := up_started b h
  ⟨hs.noLogin, hs.noLogout, hs.notFatal⟩

/-! ## A batch with a logout -/

theorem step_of_logoutAsked (h : AtHead s) (hexit : s.exit = none) {p : Pass} (hgo : p.shouldStop = false)
    (hasked : p.logoutAsked = true) :
    s.step b p =
      if p.loginAsked = true ∧ p.wantAfter s.wantRunning = true then { s.drained p with exit := some .needsRelogin }
      else (s.drained p).logOut p := by
  obtain ⟨hwant, hlogin, hlogout, -⟩ := h.drain p
  rw [hasked] at hlogout
  rw [← hlogin, ← hwant]
  have hwent := went b s p
  generalize s.step b p = s' at hwent ⊢
  cases hwent with
  | left hleft => exact absurd hexit hleft
  | stopped _ hstop =>
    rw [hgo] at hstop
    cases hstop
  | relogin _ _ hl => rw [if_pos hl]
  | logout he => rw [if_neg he.noLogin]
  | parked he hno =>
    rw [hlogout] at hno
    cases hno
  | loggedOut hw | backingOff hw => exact absurd hlogout (Bool.eq_false_iff.1 hw.noLogout)
  | unauthorized hb | refused e hb => exact absurd hlogout (Bool.eq_false_iff.1 hb.noLogout)
  | polled hlistens =>
    cases hlistens with
    | held hw => exact absurd hlogout (Bool.eq_false_iff.1 hw.noLogout)
    | fresh hb => exact absurd hlogout (Bool.eq_false_iff.1 hb.noLogout)

theorem logOut_trace (s : LoopState τ) (p : Pass) : ∃ done, (s.logOut p).trace = s.trace ++ [.logout done] := by
  unfold LoopState.logOut
  cases p.logout with
  | failed => exact ⟨false, rfl⟩
  | done seqFile handleFile => exact ⟨true, rfl⟩

theorem logoutAsked_iff (p : Pass) : p.logoutAsked = true ↔ .logout ∈ p.signals.map Drained.signal := by
  unfold Pass.logoutAsked
  simp

/-- **An accepted logout is performed exactly when no login that the loop acts on shares its batch**: in every run, for
every batch in which a logout was answered with 202 behind `queue` and before `later`. Otherwise the pass leaves the
loop for a new login at once. -/
theorem accepted_logout_performed_iff (s₀ : LoopState τ) (h₀ : AtHead s₀) (passes : List Pass) (p : Pass)
    (state : OnlineState) (reason : Option ControlError) (alive : Bool) (queue later : List ControlSignal)
    (h202 : (controlAction state reason alive .logout queue).1.status = 202)
    (hbatch : p.signals.map Drained.signal = (controlAction state reason alive .logout queue).2 ++ later) :
    let s := run (LoopState.step b) s₀ passes
    s.exit = none → p.shouldStop = false →
      ((∃ done, (s.step b p).trace = s.trace ++ [.logout done]) ↔
        ¬ (p.loginAsked = true ∧ p.wantAfter s.wantRunning = true)) ∧
      (p.loginAsked = true ∧ p.wantAfter s.wantRunning = true →
        (s.step b p).exit = some .needsRelogin ∧ (s.step b p).trace = s.trace) := by
  intro s hexit hgo
  have hasked : p.logoutAsked = true := by
    rw [logoutAsked_iff, hbatch, controlAction_accepted h202]
    simp
  have hhead := atHead_run b s₀ h₀ passes hexit
  have htrace : (s.drained p).trace = s.trace := (drain_trace s p).1
  have hstep := step_of_logoutAsked b hhead hexit hgo hasked
  by_cases hlogin : p.loginAsked = true ∧ p.wantAfter s.wantRunning = true
  · rw [if_pos hlogin] at hstep
    rw [hstep]
    refine ⟨⟨fun ⟨done, hd⟩ => ?_, fun hno => absurd hlogin hno⟩, fun _ => ⟨rfl, htrace⟩⟩
    rw [show ({ s.drained p with exit := some .needsRelogin } : LoopState τ).trace = s.trace from htrace,
      self_eq_append_right] at hd
    cases hd
  · rw [if_neg hlogin] at hstep
    rw [hstep]
    obtain ⟨done, hd⟩ := logOut_trace (s.drained p) p
    rw [htrace] at hd
    exact ⟨⟨fun _ => hlogin, fun _ => ⟨done, hd⟩⟩, fun hl => absurd hl hlogin⟩

def batch (signals : List ControlSignal) (logout : LogoutResult) : Pass :=
  { ord := Ctl.nodeKeyOrder, signals := signals.map (fun signal => { signal := signal }), logout := logout }

theorem accepted_logout_performed_iff_reconnect :
    ∃ s₀, LoopState.up Wg.clearTunn 0 {} true (.ok .authorized) (.ok ()) = .ok s₀ ∧
      ∃ done, (s₀.step Wg.clearTunn (batch [.forceReconnect, .logout] .failed)).trace = s₀.trace ++ [.logout done] := by
  refine ⟨authorizedLoop, up_authorizedLoop, ?_⟩
  have hhead : AtHead authorizedLoop := up_atHead Wg.clearTunn up_authorizedLoop
  have hiff := (accepted_logout_performed_iff Wg.clearTunn authorizedLoop hhead []
    (batch [.forceReconnect, .logout] .failed) .online none true [.forceReconnect] [] rfl rfl rfl rfl).1
  exact hiff.2 fun hlogin => absurd hlogin.1 (by decide)

/-- **A logout that shares its batch with a login is lost**: both are accepted, and no logout was attempted. -/
theorem accepted_logout_lost_to_login :
    let first := controlAction .online none true .logout []
    let second := controlAction .online none true .loginInteractive first.2
    let p := batch second.2 (.done .removed .removed)
    first.1.status = 202 ∧ second.1.status = 202 ∧ p.shouldStop = false ∧
      ∃ s₀, LoopState.up Wg.clearTunn 0 {} true (.ok .authorized) (.ok ()) = .ok s₀ ∧
        (s₀.step Wg.clearTunn p).exit = some .needsRelogin ∧ (s₀.step Wg.clearTunn p).trace = [] := by
  intro first second p
  exact ⟨rfl, rfl, rfl, _, rfl, rfl, rfl⟩

/-! ## What the loop goes by -/

def Follows (calls : List LoopAction) (s t : LoopState τ) : Prop :=
  ∃ n, s = { t with trace := calls ++ t.trace, reconnectAttempt := n }

section

variable {calls : List LoopAction} {s t : LoopState τ}

theorem follows_receive (h : Follows calls s t) (fatal : Bool) (ord : HashOrder NodeKey) (d : Drained) :
    Follows calls (s.receive fatal ord d) (t.receive fatal ord d) := by
  obtain ⟨n, rfl⟩ := h
  unfold LoopState.receive
  split
  · exact ⟨n, rfl⟩
  · split
    · exact ⟨0, rfl⟩
    · split
      · exact ⟨n, rfl⟩
      · exact ⟨0, rfl⟩
    · split
      · exact ⟨0, rfl⟩
      · exact ⟨n, rfl⟩
    · exact ⟨n, rfl⟩
    · exact ⟨n, rfl⟩

theorem follows_drain (h : Follows calls s t) (p : Pass) : Follows calls (s.drain p) (t.drain p) := by
  have hfatal : s.lifecycle.state.isFatal = t.lifecycle.state.isFatal := by
    obtain ⟨n, rfl⟩ := h
    rfl
  unfold LoopState.drain
  rw [hfatal]
  exact run_sim (Follows calls) (fun s t d hf _ => follows_receive hf _ p.ord d) p.signals s t h
    (along_true _ p.signals t)

theorem follows_fail {s' t' : LoopState τ} (h : Follows calls s t) (h' : Follows calls s' t') (e : ControlError) :
    Follows calls (s.fail e s') (t.fail e t') := by
  obtain ⟨n, rfl⟩ := h
  unfold LoopState.fail
  split
  · exact ⟨n, rfl⟩
  · exact ⟨n, rfl⟩
  · exact h'

theorem follows_sleep (h : Follows calls s t) (p : Pass) : Follows calls (s.sleep p) (t.sleep p) := by
  obtain ⟨n, rfl⟩ := h
  unfold LoopState.sleep
  split
  · exact ⟨n, rfl⟩
  · exact ⟨n, rfl⟩

theorem follows_poll (h : Follows calls s t) (m : MapClient) (p : Pass) :
    Follows calls (s.poll b m p) (t.poll b m p) := by
  obtain ⟨n, rfl⟩ := h
  unfold LoopState.poll
  simp only
  split
  · refine follows_fail ?_ ?_ _
    · exact ⟨n, rfl⟩
    · exact ⟨0, rfl⟩
  next event _ => cases event <;> exact ⟨0, rfl⟩

theorem follows_reconnect (h : Follows calls s t) (p : Pass) :
    Follows calls (LoopState.finish b p (s.reconnect p)) (LoopState.finish b p (t.reconnect p)) := by
  obtain ⟨n, rfl⟩ := h
  unfold LoopState.reconnect
  split
  · exact ⟨n, rfl⟩
  · simp only [append_assoc]
    cases bootstrapControlSession t.dir p.register p.opened with
    | error e =>
      refine follows_fail ?_ ?_ e
      · exact ⟨n, rfl⟩
      · exact ⟨min (n + 1) (2 ^ 32 - 1), rfl⟩
    | ok outcome =>
      cases outcome with
      | needsInteractiveLogin => exact ⟨n, rfl⟩
      | session m =>
        refine follows_poll b ?_ m p
        exact ⟨n, rfl⟩

theorem follows_logOut (h : Follows calls s t) (p : Pass) : Follows calls (s.logOut p) (t.logOut p) := by
  obtain ⟨n, rfl⟩ := h
  unfold LoopState.logOut
  cases p.logout with
  | failed | done seqFile handleFile =>
    simp only [LoopState.performLogout, append_assoc]
    exact ⟨0, rfl⟩

theorem follows_proceed (h : Follows calls s t) (p : Pass) :
    Follows calls (LoopState.finish b p (s.proceed p)) (LoopState.finish b p (t.proceed p)) := by
  have hsame : s.logoutRequested = t.logoutRequested ∧ s.wantRunning = t.wantRunning ∧ s.mapOpt = t.mapOpt ∧
      s.lifecycle = t.lifecycle := by
    obtain ⟨n, rfl⟩ := h
    exact ⟨rfl, rfl, rfl, rfl⟩
  obtain ⟨hlogout, hwant, hmap, hlife⟩ := hsame
  unfold LoopState.proceed
  rw [hlogout, hwant, hmap, hlife]
  split
  · exact follows_logOut h p
  · split
    · split
      · exact follows_poll b h _ p
      · split
        · exact follows_sleep h p
        · exact follows_reconnect b h p
    · refine follows_sleep ?_ p
      obtain ⟨n, rfl⟩ := h
      exact ⟨n, rfl⟩

theorem follows_step (h : Follows calls s t) (p : Pass) : Follows calls (s.step b p) (t.step b p) := by
  have hdrain := follows_drain h p
  have hflags : s.exit = t.exit ∧ (s.drain p).loginInteractiveRequested = (t.drain p).loginInteractiveRequested ∧
      (s.drain p).wantRunning = (t.drain p).wantRunning := by
    obtain ⟨n, hs⟩ := h
    obtain ⟨n', hd⟩ := hdrain
    rw [hd, hs]
    exact ⟨rfl, rfl, rfl⟩
  unfold LoopState.step
  rw [hflags.1]
  split
  · exact h
  · split
    · obtain ⟨n, rfl⟩ := h
      exact ⟨n, rfl⟩
    · simp only [LoopState.beforePoll]
      rw [hflags.2.1, hflags.2.2]
      split
      · obtain ⟨n, hd⟩ := hdrain
        rw [hd]
        exact ⟨n, rfl⟩
      · refine follows_proceed b ?_ p
        obtain ⟨n, hd⟩ := hdrain
        rw [hd]
        exact ⟨n, rfl⟩

theorem follows_run (h : Follows calls s t) (passes : List Pass) :
    Follows calls (run (LoopState.step b) s passes) (run (LoopState.step b) t passes) :=
  run_sim (Follows calls) (fun _ _ p hf _ => follows_step b hf p) passes s t h (along_true _ passes t)

end

def LoopState.course (s : LoopState τ) : LoopState τ := { s with trace := [], reconnectAttempt := 0 }

def GoOnAlike (s t : LoopState τ) : Prop :=
  ∀ passes : List Pass,
    (run (LoopState.step b) s passes).course = (run (LoopState.step b) t passes).course ∧
      ∃ calls, (run (LoopState.step b) s passes).trace = s.trace ++ calls ∧
        (run (LoopState.step b) t passes).trace = t.trace ++ calls

theorem follows_course (s : LoopState τ) : Follows s.trace s s.course := by
  refine ⟨s.reconnectAttempt, ?_⟩
  simp [LoopState.course]

theorem goOnAlike_of_course {s t : LoopState τ} (h : s.course = t.course) : GoOnAlike b s t := by
  intro passes
  have hs := follows_run b (follows_course s) passes
  have ht := follows_run b (follows_course t) passes
  rw [h] at hs
  obtain ⟨n, hs⟩ := hs
  obtain ⟨n', ht⟩ := ht
  rw [hs, ht]
  exact ⟨rfl, _, rfl, rfl⟩

/-! ## A logout that fails -/

theorem receive_setLogout (s : LoopState τ) (asked : Bool) (d : Drained) (hd : d.signal ≠ .logout) :
    ({ s with logoutRequested := asked } : LoopState τ).receive false ord d =
      { s.receive false ord d with logoutRequested := asked } := by
  unfold LoopState.receive
  cases hs : d.signal with
  | logout => exact absurd hs hd
  | setWantRunning desired =>
    cases desired with
    | true | false =>
      simp only [Bool.false_eq_true, if_false]
      split <;> rfl
  | _ => rfl

theorem receive_logout {d : Drained} (hd : d.signal = .logout) (s : LoopState τ) :
    s.receive false ord d = { s with logoutRequested := true } := by
  unfold LoopState.receive
  rw [hd]
  rfl

theorem foldl_receive_setLogout (ord : HashOrder NodeKey) (asked : Bool) : ∀ (ds : List Drained) (s : LoopState τ),
    ({ ds.foldl (LoopState.receive false ord) { s with logoutRequested := true } with logoutRequested := asked } :
      LoopState τ) = { ds.foldl (LoopState.receive false ord) s with logoutRequested := asked }
  | [], _ => rfl
  | d :: ds, s => by
    rw [foldl_cons, foldl_cons]
    by_cases hd : d.signal = .logout
    · rw [receive_logout ord hd, receive_logout ord hd]
    · rw [receive_setLogout ord s true d hd]
      exact foldl_receive_setLogout ord asked ds _

theorem foldl_receive_withoutLogout (ord : HashOrder NodeKey) : ∀ (ds : List Drained) (s : LoopState τ),
    (ds.filter (fun d => decide (d.signal ≠ .logout))).foldl (LoopState.receive false ord) s =
      { ds.foldl (LoopState.receive false ord) s with logoutRequested := s.logoutRequested }
  | [], _ => rfl
  | d :: ds, s => by
    by_cases hd : d.signal = .logout
    · rw [filter_cons_of_neg (by simpa using hd), foldl_receive_withoutLogout ord ds s, foldl_cons,
        receive_logout ord hd]
      exact (foldl_receive_setLogout ord s.logoutRequested ds s).symm
    · have hkeep : (s.receive false ord d).logoutRequested = s.logoutRequested := by
        rw [receive_logoutRequested, decide_eq_false hd, Bool.or_false]
      rw [filter_cons_of_pos (by simpa using hd), foldl_cons, foldl_receive_withoutLogout ord ds, foldl_cons, hkeep]

theorem AtHead.drained_withoutLogout (h : AtHead s) (p : Pass) :
    s.drained p.withoutLogout = { s.drained p with logoutRequested := false } := by
  have hfold := foldl_receive_withoutLogout p.ord p.signals s
  unfold LoopState.drained LoopState.drain
  rw [h.notFatal]
  simp only [Pass.withoutLogout] at hfold ⊢
  rw [hfold, h.noLogout]

theorem step_of_logout (hhead : s.exit = none → AtHead s) {p : Pass} {done : Bool}
    (h : (s.step b p).trace = s.trace ++ [.logout done]) :
    AtHead s ∧ s.step b p = (s.drained p).logOut p ∧ (done = false ↔ p.logout = .failed) := by
  rcases step_trace b s p with hsame | hboot | ⟨he, hstep⟩
  · rw [hsame, self_eq_append_right] at h
    cases h
  · rw [hboot, append_cancel_left_eq] at h
    cases h
  · refine ⟨hhead he.running, hstep, ?_⟩
    rw [hstep, ← drained_trace s p] at h
    unfold LoopState.logOut at h
    cases hl : p.logout with
    | failed =>
      rw [hl] at h
      have hend := append_cancel_left h
      cases hend
      exact ⟨fun _ => rfl, fun _ => rfl⟩
    | done seqFile handleFile =>
      rw [hl] at h
      have hend := append_cancel_left h
      cases hend
      exact ⟨fun hf => (by cases hf), fun hf => (by cases hf)⟩

/-- **A logout that fails changes nothing exactly when the node is not parked by then**: in every run, the loop goes on
after the failed logout as the loop that drained the same batch without it, if the batch's last `SetWantRunning`, or
the flag before it, says to run. -/
theorem failed_logout_noop_iff (s₀ : LoopState τ) (h₀ : AtHead s₀) (passes : List Pass) (p : Pass)
    (h : ((run (LoopState.step b) s₀ passes).step b p).trace =
      (run (LoopState.step b) s₀ passes).trace ++ [.logout false]) :
    let s := run (LoopState.step b) s₀ passes
    GoOnAlike b (s.step b p) (s.drained p.withoutLogout) ↔ p.wantAfter s.wantRunning = true := by
  intro s
  obtain ⟨hat, hstep, hwent⟩ : AtHead s ∧ s.step b p = (s.drained p).logOut p ∧ (false = false ↔ p.logout = .failed) :=
    step_of_logout b (atHead_run b s₀ h₀ passes) h
  have hfailed := hwent.1 rfl
  have hwant : (s.drained p).wantRunning = p.wantAfter s.wantRunning := (hat.drain p).1
  have hafter : s.step b p = { s.drained p with
      trace := (s.drained p).trace ++ [.logout false], logoutRequested := false, wantRunning := true,
      reconnectAttempt := 0 } := by
    rw [hstep]
    unfold LoopState.logOut
    rw [hfailed]
    rfl
  rw [hat.drained_withoutLogout p, hafter]
  constructor
  · intro halike
    have hnow := congrArg LoopState.wantRunning (halike []).1
    rw [← hwant]
    exact hnow.symm
  · intro hrun
    refine goOnAlike_of_course b ?_
    unfold LoopState.course
    rw [← hwant] at hrun
    simp [hrun]

end

theorem failed_logout_noop_iff_running :
    ∃ s₀, LoopState.up Wg.clearTunn 0 {} true (.ok .authorized) (.ok ()) = .ok s₀ ∧
      GoOnAlike Wg.clearTunn (s₀.step Wg.clearTunn (batch [.forceReconnect, .logout] .failed))
        (s₀.drained (batch [.forceReconnect, .logout] .failed).withoutLogout) := by
  refine ⟨authorizedLoop, up_authorizedLoop, ?_⟩
  have hiff := failed_logout_noop_iff Wg.clearTunn authorizedLoop (up_atHead Wg.clearTunn up_authorizedLoop) []
    (batch [.forceReconnect, .logout] .failed) (by decide +kernel)
  exact hiff.2 (by decide +kernel)

/-- **A logout that fails makes a parked node run**: the next pass bootstraps a session. -/
theorem failed_logout_unparks :
    let quiet := batch [] .failed
    ∃ s₀, LoopState.up Wg.clearTunn 0 {} false (.ok .authorized) (.ok ()) = .ok s₀ ∧
      (s₀.step Wg.clearTunn quiet).wantRunning = false ∧
      (run (LoopState.step Wg.clearTunn) s₀ [quiet, quiet]).trace = [] ∧
      (s₀.step Wg.clearTunn (batch [.logout] .failed)).trace = [.logout false] ∧
      (s₀.step Wg.clearTunn (batch [.logout] .failed)).wantRunning = true ∧
      (run (LoopState.step Wg.clearTunn) s₀ [batch [.logout] .failed, quiet]).trace = [.logout false, .bootstrap] := by
  intro quiet
  exact ⟨_, rfl, by decide +kernel, by decide +kernel, by decide +kernel, by decide +kernel, by decide +kernel⟩

end TailscaleVita.Rt
