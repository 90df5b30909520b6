import TailscaleVita.RtLoop
/-!
# RtPass — what a pass of the loop can do

`Went b s p s'` lists the ways through a pass, each with the guards that lead to it; `went` says that every pass takes
one of them. What a pass keeps or changes is read off the list.
-/
namespace TailscaleVita.Rt

open Ctl (NodeKey NetMapSnapshot ControlError MapClient MapEvent)
open Wg (Engine Boringtun)

section

variable {τ : Type} (b : Boringtun τ)

def LoopState.drained (s : LoopState τ) (p : Pass) : LoopState τ :=
  { s.drain p with loginInteractiveRequested := false }

structure Entered (s : LoopState τ) (p : Pass) : Prop where
  running : s.exit = none
  goesOn : p.shouldStop = false
  noLogin : ¬ ((s.drain p).loginInteractiveRequested = true ∧ (s.drain p).wantRunning = true)

structure Wanted (s : LoopState τ) (p : Pass) : Prop extends Entered s p where
  noLogout : (s.drain p).logoutRequested = false
  wanted : (s.drain p).wantRunning = true

structure Bootstraps (s : LoopState τ) (p : Pass) : Prop extends Wanted s p where
  noSession : (s.drain p).mapOpt = none
  loggedIn : (s.drain p).lifecycle.state ≠ .needsLogin
  slept : p.sleepStops = false

def LoopState.called (s : LoopState τ) : LoopState τ := { s with trace := s.trace ++ [.bootstrap] }

inductive Listens (s : LoopState τ) (p : Pass) : LoopState τ → MapClient → Prop where
  | held {m : MapClient} (h : Wanted s p) (hm : (s.drain p).mapOpt = some m) : Listens s p (s.drained p) m
  | fresh {m : MapClient} (h : Bootstraps s p)
      (hboot : bootstrapControlSession (s.drain p).dir p.register p.opened = .ok (.session m)) :
      Listens s p { (s.drained p).called with mapOpt := some m } m

inductive Went (s : LoopState τ) (p : Pass) : LoopState τ → Prop where
  | left (h : s.exit ≠ none) : Went s p s
  | stopped (h : s.exit = none) (hstop : p.shouldStop = true) : Went s p { s with exit := some .stopped }
  | relogin (h : s.exit = none) (hgo : p.shouldStop = false)
      (hlogin : (s.drain p).loginInteractiveRequested = true ∧ (s.drain p).wantRunning = true) :
      Went s p { s.drained p with exit := some .needsRelogin }
  | logout (h : Entered s p) (hlogout : (s.drain p).logoutRequested = true) : Went s p ((s.drained p).logOut p)
  | parked (h : Entered s p) (hlogout : (s.drain p).logoutRequested = false)
      (hwant : (s.drain p).wantRunning = false) :
      Went s p (({ s.drained p with lifecycle := (s.drain p).lifecycle.setStopped } : LoopState τ).sleep p)
  | loggedOut (h : Wanted s p) (hm : (s.drain p).mapOpt = none)
      (hstate : (s.drain p).lifecycle.state = .needsLogin) : Went s p ((s.drained p).sleep p)
  | backingOff (h : Wanted s p) (hm : (s.drain p).mapOpt = none)
      (hstate : (s.drain p).lifecycle.state ≠ .needsLogin) (hsleep : p.sleepStops = true) :
      Went s p { s.drained p with exit := some .stopped }
  | unauthorized (h : Bootstraps s p)
      (hboot : bootstrapControlSession (s.drain p).dir p.register p.opened = .ok .needsInteractiveLogin) :
      Went s p { (s.drained p).called with exit := some .needsRelogin }
  | refused (e : ControlError) (h : Bootstraps s p)
      (hboot : bootstrapControlSession (s.drain p).dir p.register p.opened = .error e) :
      Went s p ((s.drained p).called.fail e
        { (s.drained p).called with reconnectAttempt := min ((s.drain p).reconnectAttempt + 1) (2 ^ 32 - 1) })
  | polled {s' : LoopState τ} {m : MapClient} (h : Listens s p s' m) : Went s p (s'.poll b m p)

theorem went (s : LoopState τ) (p : Pass) : Went b s p (s.step b p) := by
  unfold LoopState.step
  split
  next hexit => exact .left (Option.isSome_iff_ne_none.1 hexit)
  next hexit =>
    have hnone : s.exit = none := Option.not_isSome_iff_eq_none.1 hexit
    split
    next hstop => exact .stopped hnone hstop
    next hgo =>
      have hgo : p.shouldStop = false := Bool.eq_false_iff.2 hgo
      simp only [LoopState.beforePoll]
      split
      next hlogin => exact .relogin hnone hgo hlogin
      next hlogin =>
        have he : Entered s p := ⟨hnone, hgo, hlogin⟩
        unfold LoopState.proceed
        split
        next hlogout => exact .logout he hlogout
        next hlogout =>
          have hlogout : (s.drain p).logoutRequested = false := Bool.eq_false_iff.2 hlogout
          split
          next hwant =>
            have hw : Wanted s p := ⟨he, hlogout, hwant⟩
            split
            next m hm => exact .polled (.held hw hm)
            next hm =>
              split
              next hstate => exact .loggedOut hw hm hstate
              next hstate =>
                unfold LoopState.reconnect
                split
                next hsleep => exact .backingOff hw hm hstate hsleep
                next hsleep =>
                  have hb : Bootstraps s p := ⟨hw, hm, hstate, Bool.eq_false_iff.2 hsleep⟩
                  simp only
                  split
                  next m hboot => exact .polled (.fresh hb hboot)
                  next hboot => exact .unauthorized hb hboot
                  next e hboot => exact .refused e hb hboot
          next hwant => exact .parked he hlogout (Bool.eq_false_iff.2 hwant)

/-! ## What a pass calls -/

theorem receive_trace (fatal : Bool) (ord : HashOrder NodeKey) (s : LoopState τ) (d : Drained) :
    (s.receive fatal ord d).trace = s.trace ∧ (s.receive fatal ord d).exit = s.exit := by
  unfold LoopState.receive
  split
  · exact ⟨rfl, rfl⟩
  · split
    · exact ⟨rfl, rfl⟩
    · split <;> exact ⟨rfl, rfl⟩
    · split <;> exact ⟨rfl, rfl⟩
    · exact ⟨rfl, rfl⟩
    · exact ⟨rfl, rfl⟩

theorem drain_trace (s : LoopState τ) (p : Pass) : (s.drain p).trace = s.trace ∧ (s.drain p).exit = s.exit := by
  refine run_keeps (fun t : LoopState τ => t.trace = s.trace ∧ t.exit = s.exit) (fun t d ht => ?_) p.signals s
    ⟨rfl, rfl⟩
  obtain ⟨htrace, hexit⟩ := receive_trace s.lifecycle.state.isFatal p.ord t d
  exact ⟨htrace.trans ht.1, hexit.trans ht.2⟩

theorem fail_keeps {α : Type} (f : LoopState τ → α) (hf : ∀ s l x, f { s with lifecycle := l, exit := x } = f s)
    (s : LoopState τ) (e : ControlError) {retry : LoopState τ} (h : f retry = f s) : f (s.fail e retry) = f s := by
  unfold LoopState.fail
  split
  · exact hf s _ _
  · exact hf s _ _
  · exact h

theorem sleep_keeps {α : Type} (f : LoopState τ → α) (hf : ∀ s x, f { s with exit := x } = f s) (s : LoopState τ)
    (p : Pass) : f (s.sleep p) = f s := by
  unfold LoopState.sleep
  split
  · exact hf s _
  · rfl

theorem fail_trace (s : LoopState τ) (e : ControlError) {retry : LoopState τ} (h : retry.trace = s.trace) :
    (s.fail e retry).trace = s.trace :=
  fail_keeps LoopState.trace (fun _ _ _ => rfl) s e h

theorem sleep_trace (s : LoopState τ) (p : Pass) : (s.sleep p).trace = s.trace :=
  sleep_keeps LoopState.trace (fun _ _ => rfl) s p

theorem poll_trace (s : LoopState τ) (m : MapClient) (p : Pass) : (s.poll b m p).trace = s.trace := by
  unfold LoopState.poll
  simp only
  split
  · exact fail_trace _ _ rfl
  next event _ => cases event <;> rfl

theorem drained_trace (s : LoopState τ) (p : Pass) : (s.drained p).trace = s.trace := (drain_trace s p).1

theorem called_trace (s : LoopState τ) (p : Pass) : (s.drained p).called.trace = s.trace ++ [.bootstrap] :=
  congrArg (fun calls => calls ++ [LoopAction.bootstrap]) (drained_trace s p)

theorem step_trace (s : LoopState τ) (p : Pass) :
    (s.step b p).trace = s.trace ∨ (s.step b p).trace = s.trace ++ [.bootstrap] ∨
      Entered s p ∧ s.step b p = (s.drained p).logOut p := by
  have hdrain := drained_trace s p
  have hcalled := called_trace s p
  have hwent := went b s p
  generalize s.step b p = s' at hwent ⊢
  cases hwent with
  | left | stopped => exact .inl rfl
  | relogin => exact .inl hdrain
  | logout he => exact .inr (.inr ⟨he, rfl⟩)
  | parked | loggedOut => exact .inl ((sleep_trace _ p).trans hdrain)
  | backingOff => exact .inl hdrain
  | unauthorized => exact .inr (.inl hcalled)
  | refused e =>
    refine .inr (.inl ((fail_trace _ e ?_).trans hcalled))
    rfl
  | polled hl =>
    rw [poll_trace]
    cases hl with
    | held => exact .inl hdrain
    | fresh => exact .inr (.inl hcalled)

theorem fail_of_exit {s retry : LoopState τ} {e : ControlError} (h : (s.fail e retry).exit = none) :
    s.fail e retry = retry := by
  unfold LoopState.fail at h ⊢
  split at h
  · cases h
  · cases h
  · rfl

variable {s : LoopState τ}

theorem step_of_exit (h : s.exit ≠ none) (p : Pass) : s.step b p = s := by
  unfold LoopState.step
  rw [if_pos (Option.isSome_iff_ne_none.2 h)]

variable {p : Pass}

theorem running_of_step (h : (s.step b p).exit = none) : s.exit = none := by
  by_contra hleft
  rw [step_of_exit b hleft] at h
  exact hleft h

/-! ## The snapshot a pass handles -/

def heardFrom (m : MapClient) (dir : Ctl.StateDir) (p : Pass) : Option (MapClient × NetMapSnapshot) :=
  match m.nextEvent dir p.ord p.polled with
  | (m', _, .ok (.snapshot snap)) => some (m', snap)
  | _ => none

def LoopState.heard (s : LoopState τ) (p : Pass) : Option (MapClient × NetMapSnapshot) :=
  if s.exit.isSome ∨ p.shouldStop = true then none
  else
    match s.beforePoll p with
    | .done _ => none
    | .listen s' m => heardFrom m s'.dir p

variable {m : MapClient}

theorem listens_of_beforePoll {s s' : LoopState τ} (hexit : s.exit = none)
    (hgo : p.shouldStop = false) (h : s.beforePoll p = .listen s' m) : Listens s p s' m := by
  simp only [LoopState.beforePoll] at h
  split at h
  · cases h
  next hlogin =>
    have he : Entered s p := ⟨hexit, hgo, hlogin⟩
    unfold LoopState.proceed at h
    split at h
    · cases h
    next hlogout =>
      split at h
      next hwant =>
        have hw : Wanted s p := ⟨he, Bool.eq_false_iff.2 hlogout, hwant⟩
        split at h
        next m' hm =>
          cases h
          exact .held hw hm
        next hm =>
          split at h
          · cases h
          next hstate =>
            unfold LoopState.reconnect at h
            split at h
            · cases h
            next hsleep =>
              simp only at h
              split at h
              next m' hboot =>
                cases h
                exact .fresh ⟨hw, hm, hstate, Bool.eq_false_iff.2 hsleep⟩ hboot
              · cases h
              · cases h
      · cases h

theorem Entered.beforePoll (h : Entered s p) : s.beforePoll p = (s.drained p).proceed p := by
  unfold LoopState.beforePoll
  rw [if_neg h.noLogin]
  rfl

theorem Wanted.beforePoll (h : Wanted s p) :
    s.beforePoll p =
      match (s.drain p).mapOpt with
      | some m => .listen (s.drained p) m
      | none =>
        if (s.drain p).lifecycle.state = .needsLogin then .done ((s.drained p).sleep p)
        else (s.drained p).reconnect p := by
  have hlogout : ¬ (s.drained p).logoutRequested = true := Bool.eq_false_iff.1 h.noLogout
  have hwant : (s.drained p).wantRunning = true := h.wanted
  rw [h.toEntered.beforePoll]
  unfold LoopState.proceed
  rw [if_neg hlogout, if_pos hwant]
  rfl

theorem beforePoll_of_listens {s s' : LoopState τ} (h : Listens s p s' m) :
    Entered s p ∧ s.beforePoll p = .listen s' m := by
  cases h with
  | held hw hm =>
    refine ⟨hw.toEntered, ?_⟩
    rw [hw.beforePoll, hm]
  | fresh hb hboot =>
    refine ⟨hb.toEntered, ?_⟩
    rw [hb.toWanted.beforePoll, hb.noSession]
    rw [if_neg hb.loggedIn]
    unfold LoopState.reconnect
    rw [if_neg (Bool.eq_false_iff.1 hb.slept)]
    simp only
    rw [show (s.drained p).dir = (s.drain p).dir from rfl, hboot]
    rfl

theorem heard_of_listens {s s' : LoopState τ} (h : Listens s p s' m) : s.heard p = heardFrom m s'.dir p := by
  obtain ⟨he, hbefore⟩ := beforePoll_of_listens h
  unfold LoopState.heard
  rw [he.running, he.goesOn, hbefore]
  rfl

theorem step_of_listens {s s' : LoopState τ} (h : Listens s p s' m) : s.step b p = s'.poll b m p := by
  obtain ⟨he, hbefore⟩ := beforePoll_of_listens h
  unfold LoopState.step
  rw [he.running, he.goesOn, hbefore]
  rfl

theorem listens_of_heard {r : MapClient × NetMapSnapshot} (h : s.heard p = some r) :
    ∃ s' m, Listens s p s' m ∧ heardFrom m s'.dir p = some r := by
  unfold LoopState.heard at h
  split at h
  · cases h
  next hno =>
    rw [not_or] at hno
    cases hbefore : s.beforePoll p with
    | done t =>
      rw [hbefore] at h
      cases h
    | listen s' m =>
      rw [hbefore] at h
      refine ⟨s', m, ?_, h⟩
      exact listens_of_beforePoll (Option.not_isSome_iff_eq_none.1 hno.1) (Bool.eq_false_iff.2 hno.2) hbefore

variable {dir : Ctl.StateDir}

theorem heardFrom_some {m m' : MapClient} {snap : NetMapSnapshot} (h : heardFrom m dir p = some (m', snap)) :
    ∃ io resp dir', p.polled = .frame io resp ∧ resp.keepAlive = false ∧
      m.nextEvent dir p.ord p.polled = (m', dir', .ok (.snapshot snap)) ∧
      m'.netmap = (m.netmap.apply p.ord resp).1 ∧ snap = Ctl.snapshotOf (m.netmap.apply p.ord resp) := by
  unfold heardFrom at h
  split at h
  next m'' dir' snap' hnext =>
    cases h
    cases hp : p.polled with
    | timeout | error e =>
      rw [hp] at hnext
      cases hnext
    | frame io resp =>
      rw [hp] at hnext
      refine ⟨io, resp, dir', rfl, ?_⟩
      simp only [MapClient.nextEvent] at hnext ⊢
      unfold MapClient.handleFrame at hnext ⊢
      cases hk : resp.keepAlive with
      | true =>
        rw [hk] at hnext
        cases hnext
      | false =>
        rw [hk] at hnext
        refine ⟨rfl, hnext, ?_⟩
        simp only [Bool.false_eq_true, if_false] at hnext
        split at hnext
        · cases hnext
        · split at hnext
          · split at hnext
            · cases hnext
              exact ⟨rfl, rfl⟩
            · cases hnext
          · cases hnext
            exact ⟨rfl, rfl⟩
  · cases h

/-! ## The session after a pass -/

def Blank (m : MapClient) : Prop := ∃ seq handle, m.netmap = { lastSeq := seq, sessionHandle := handle }

variable {opened : Except ControlError Unit}

theorem start_blank (h : (MapClient.start dir opened).2 = .ok m) : Blank m := by
  obtain ⟨seq, handle, -, -, hnm⟩ := MapClient.start_ok (Prod.ext rfl h)
  exact ⟨seq, handle, hnm⟩

theorem bootstrap_blank {register : Except ControlError RegisterOutcome}
    (h : bootstrapControlSession dir register opened = .ok (.session m)) : Blank m := by
  unfold bootstrapControlSession at h
  split at h
  · cases h
  · split at h
    · cases h
    · split at h
      · cases h
      · split at h
        · cases h
        next m' hstart =>
          cases h
          exact start_blank hstart

theorem mapOpt_drain (s : LoopState τ) (p : Pass) : (s.drain p).mapOpt = none ∨ (s.drain p).mapOpt = s.mapOpt := by
  have hone : ∀ (t : LoopState τ) (d : Drained), (t.mapOpt = none ∨ t.mapOpt = s.mapOpt) →
      ((t.receive s.lifecycle.state.isFatal p.ord d).mapOpt = none ∨
        (t.receive s.lifecycle.state.isFatal p.ord d).mapOpt = s.mapOpt) := by
    intro t d h
    unfold LoopState.receive
    split
    · exact h
    · split
      · exact .inl rfl
      · split
        · exact h
        · exact .inl rfl
      · split
        · exact .inl rfl
        · exact h
      · exact h
      · exact h
  exact run_keeps (fun t : LoopState τ => t.mapOpt = none ∨ t.mapOpt = s.mapOpt) hone p.signals s (.inr rfl)

theorem mapOpt_drain_some (h : (s.drain p).mapOpt = some m) : s.mapOpt = some m := by
  rcases mapOpt_drain s p with hd | hd
  · rw [hd] at h
    cases h
  · rw [← hd, h]

theorem Listens.session {s s' : LoopState τ} (h : Listens s p s' m) : s.mapOpt = some m ∨ Blank m := by
  cases h with
  | held _ hm => exact .inl (mapOpt_drain_some hm)
  | fresh _ hboot => exact .inr (bootstrap_blank hboot)

theorem nextEvent_unheard {event : MapEvent} (hno : heardFrom m dir p = none)
    (hok : (m.nextEvent dir p.ord p.polled).2.2 = .ok event) :
    (m.nextEvent dir p.ord p.polled).1 = m := by
  unfold heardFrom at hno
  cases hp : p.polled with
  | timeout | error e => rfl
  | frame io resp =>
    rw [hp] at hno hok
    simp only [MapClient.nextEvent] at hno hok ⊢
    unfold MapClient.handleFrame at hno hok ⊢
    cases hk : resp.keepAlive with
    | true => rfl
    | false =>
      rw [hk] at hno hok
      simp only [Bool.false_eq_true, if_false] at hno hok
      split at hok
      · cases hok
      next hw =>
        rw [if_neg hw] at hno
        split at hok
        next hh =>
          rw [if_pos hh] at hno
          split at hok
          next hio =>
            rw [if_pos hio] at hno
            cases hno
          · cases hok
        next hh =>
          rw [if_neg hh] at hno
          cases hno

theorem mapOpt_sleep (s : LoopState τ) (p : Pass) : (s.sleep p).mapOpt = s.mapOpt :=
  sleep_keeps LoopState.mapOpt (fun _ _ => rfl) s p

theorem mapOpt_handleEvent (s : LoopState τ) (p : Pass) (event : MapEvent) :
    ((s.handleEvent b p event).settle p).mapOpt = s.mapOpt := by
  cases event <;> rfl

theorem poll_session {m m' : MapClient} (hexit : (s.poll b m p).exit = none) (hm : (s.poll b m p).mapOpt = some m') :
    ∃ event, (m.nextEvent s.dir p.ord p.polled).2.2 = .ok event ∧ (m.nextEvent s.dir p.ord p.polled).1 = m' := by
  unfold LoopState.poll at hexit hm
  simp only at hexit hm
  split at hexit
  next e he =>
    simp only [he] at hm
    unfold LoopState.dropSession at hexit hm
    rw [fail_of_exit hexit] at hm
    cases hm
  next event he =>
    simp only [he] at hm
    rw [mapOpt_handleEvent] at hm
    exact ⟨event, he, Option.some.inj hm⟩

theorem polled_or_kept (hexit : (s.step b p).exit = none)
    (hm : (s.step b p).mapOpt = some m) : (∃ s' m0, Listens s p s' m0) ∨ s.heard p = none ∧ s.mapOpt = some m := by
  by_cases hlistens : ∃ s' m0, Listens s p s' m0
  · exact .inl hlistens
  refine .inr ⟨?_, ?_⟩
  · cases hheard : s.heard p with
    | none => rfl
    | some r =>
      obtain ⟨s', m0, hl, -⟩ := listens_of_heard hheard
      exact absurd ⟨s', m0, hl⟩ hlistens
  · have hwent := went b s p
    generalize s.step b p = t at hwent hexit hm
    cases hwent with
    | left h => exact absurd hexit h
    | stopped | relogin => cases hexit
    | logout =>
      unfold LoopState.logOut LoopState.performLogout at hm
      cases hl : p.logout with
      | failed =>
        rw [hl] at hm
        exact mapOpt_drain_some hm
      | done seqFile handleFile =>
        rw [hl] at hm
        cases hm
    | parked | loggedOut =>
      rw [mapOpt_sleep] at hm
      exact mapOpt_drain_some hm
    | backingOff | unauthorized => cases hexit
    | refused e =>
      rw [fail_of_exit hexit] at hm
      exact mapOpt_drain_some hm
    | polled hl => exact absurd ⟨_, _, hl⟩ hlistens

theorem session_after (hexit : (s.step b p).exit = none) (hm : (s.step b p).mapOpt = some m) :
    (∃ snap, s.heard p = some (m, snap)) ∨ s.heard p = none ∧ (s.mapOpt = some m ∨ Blank m) := by
  rcases polled_or_kept b hexit hm with ⟨s', m0, hl⟩ | ⟨hnone, hkept⟩
  · rw [step_of_listens b hl] at hexit hm
    obtain ⟨event, hok, rfl⟩ := poll_session b hexit hm
    rw [heard_of_listens hl]
    cases hfrom : heardFrom m0 s'.dir p with
    | some r =>
      obtain ⟨m', snap⟩ := r
      obtain ⟨-, -, dir', -, -, hnext, -⟩ := heardFrom_some hfrom
      rw [hnext]
      exact .inl ⟨snap, rfl⟩
    | none =>
      rw [nextEvent_unheard hfrom hok]
      exact .inr ⟨rfl, hl.session⟩
  · exact .inr ⟨hnone, .inl hkept⟩

theorem held_or_bootstrapped (hexit : (s.step b p).exit = none)
    (hm : (s.step b p).mapOpt ≠ none) : s.mapOpt ≠ none ∨ (s.step b p).trace = s.trace ++ [.bootstrap] := by
  obtain ⟨m, hm⟩ := Option.ne_none_iff_exists'.1 hm
  rcases polled_or_kept b hexit hm with ⟨s', m0, hl⟩ | ⟨-, hkept⟩
  · cases hl with
    | held _ hheld => exact .inl (Option.ne_none_iff_exists'.2 ⟨m0, mapOpt_drain_some hheld⟩)
    | fresh hb hboot =>
      rw [step_of_listens b (.fresh hb hboot), poll_trace]
      exact .inr (called_trace s p)
  · exact .inl (Option.ne_none_iff_exists'.2 ⟨m, hkept⟩)

structure Started (secret : BitVec 256) (dir : Ctl.StateDir) (opened : Except ControlError Unit) (s : LoopState τ) :
    Prop where
  engine : s.engine = Engine.new b secret []
  noRegions : s.peerRegions = ∅
  noLogin : s.loginInteractiveRequested = false
  noLogout : s.logoutRequested = false
  notFatal : s.lifecycle.state.isFatal = false
  session : ∀ m, s.mapOpt = some m → (MapClient.start dir opened).2 = .ok m

theorem up_started {secret : BitVec 256} {want : Bool} {login : Except ControlError LoginOutcome}
    (h : LoopState.up b secret dir want login opened = .ok s) :
    Started b secret dir opened s := by
  unfold LoopState.up at h
  cases want with
  | false =>
    cases h
    exact ⟨rfl, rfl, rfl, rfl, rfl, fun _ hm => by cases hm⟩
  | true =>
    simp only [if_true] at h
    split at h
    · cases h
    · split at h
      · cases h
      next hstart =>
        cases h
        refine ⟨rfl, rfl, rfl, rfl, rfl, fun _ hm => ?_⟩
        cases hm
        exact hstart
    · cases h
      exact ⟨rfl, rfl, rfl, rfl, rfl, fun _ hm => by cases hm⟩
    · cases h
      exact ⟨rfl, rfl, rfl, rfl, rfl, fun _ hm => by cases hm⟩
    · cases h
      exact ⟨rfl, rfl, rfl, rfl, rfl, fun _ hm => by cases hm⟩

theorem poll_wantRunning (s : LoopState τ) (m : MapClient) (p : Pass) : (s.poll b m p).wantRunning = s.wantRunning := by
  unfold LoopState.poll
  simp only
  split
  · exact fail_keeps LoopState.wantRunning (fun _ _ _ => rfl) _ _ rfl
  next event _ => cases event <;> rfl

theorem unheard_of_teardown {done : Bool}
    (h : (s.step b p).wantRunning = false ∨ (s.step b p).trace = s.trace ++ [.logout done]) : s.heard p = none := by
  cases hheard : s.heard p with
  | none => rfl
  | some r =>
    obtain ⟨s', m, hl, -⟩ := listens_of_heard hheard
    rw [step_of_listens b hl, poll_wantRunning, poll_trace] at h
    cases hl with
    | held hw =>
      rcases h with hpark | hout
      · exact absurd hw.wanted (Bool.eq_false_iff.1 hpark)
      · rw [drained_trace, List.self_eq_append_right] at hout
        cases hout
    | fresh hb =>
      rcases h with hpark | hout
      · exact absurd hb.wanted (Bool.eq_false_iff.1 hpark)
      · have hcalled := (called_trace s p).symm.trans hout
        rw [List.append_cancel_left_eq] at hcalled
        cases hcalled

end

end TailscaleVita.Rt
