import TailscaleVita.RtTeardown
/-!
# RtIdentity — whose key a node speaks under (`runtime.rs`, `Runtime::up`; `ts-control/src/keystore.rs`)

The node key is copied out of the key store at four points: into magicsock before the login, into the DERP mux and the
engine after it, and into every registration. A login with an expired key and a logout that is done replace the key in
the store; the copies stay.
-/
namespace TailscaleVita.Rt

open LoopState

open Ctl (NodeKey StateDir ControlError MapClient NetMapSnapshot)
open Wg (Engine Boringtun EngineEvent)

/-! ## The key store -/

inductive KeyFile where
  | notFound
  | unreadable
  | bytes (bs : Bytes)

structure Draw where
  key : BitVec 256
  written : Bool := true

def generateAndPersist (draw : Draw) : Except ControlError (BitVec 256) :=
  if draw.written then .ok draw.key else .error .io

def loadOrGeneratePriv (file : KeyFile) (draw : Draw) : Except ControlError (BitVec 256) :=
  match file with
  | .bytes bs => if bs.length = 32 then .ok (fromLeBytes 256 bs) else generateAndPersist draw
  | .notFound => generateAndPersist draw
  | .unreadable => .error .io

structure KeyStore (derivePub : BitVec 256 → NodeKey) where
  nodePriv : BitVec 256
  nodePub : NodeKey
  derived : nodePub = derivePub nodePriv

section

variable {derivePub : BitVec 256 → NodeKey}

def KeyStore.ofPriv (derivePub : BitVec 256 → NodeKey) (nodePriv : BitVec 256) : KeyStore derivePub :=
  ⟨nodePriv, derivePub nodePriv, rfl⟩

def KeyStore.loadOrGenerate (derivePub : BitVec 256 → NodeKey) (file : KeyFile) (draw : Draw) :
    Except ControlError (KeyStore derivePub) :=
  (loadOrGeneratePriv file draw).map (KeyStore.ofPriv derivePub)

def KeyStore.regenerateNodeKey (ks : KeyStore derivePub) (draw : Draw) :
    KeyStore derivePub × Except ControlError Unit :=
  match generateAndPersist draw with
  | .error e => (ks, .error e)
  | .ok key => (KeyStore.ofPriv derivePub key, .ok ())

/-! ## The login -/

inductive LoginAbort where
  | parked
  | loggedOut
  | shutdown

def LoginAbort.outcome : LoginAbort → LoginOutcome
  | .parked => .parked
  | .loggedOut => .loggedOut
  | .shutdown => .shutdown

/-- How one round of the login goes: it is given up, the connection or the registration fails, or control answers. -/
inductive LoginRound where
  | aborted (reason : LoginAbort)
  | connFailed (e : ControlError)
  | refused (e : ControlError)
  | answered (outcome : RegisterOutcome) (draw : Draw)

def LoginRound.expires : LoginRound → Bool
  | .answered outcome _ => outcome.nodeKeyExpired && !outcome.machineAuthorized
  | _ => false

def interactiveLogin (keySupplied : Bool) (ks : KeyStore derivePub) :
    List LoginRound → KeyStore derivePub × Option (Except ControlError LoginOutcome)
  | [] => (ks, none)
  | .aborted reason :: _ => (ks, some (.ok reason.outcome))
  | .connFailed e :: rounds => if keySupplied then (ks, some (.error e)) else interactiveLogin keySupplied ks rounds
  | .refused e :: rounds =>
    if e = .authRejected ∨ keySupplied = true then (ks, some (.error e)) else interactiveLogin keySupplied ks rounds
  | .answered outcome draw :: rounds =>
    -- an answer that carries both flags still authorizes
    if outcome.nodeKeyExpired && !outcome.machineAuthorized then
      match ks.regenerateNodeKey draw with
      | (ks, .error e) => (ks, some (.error e))
      | (ks, .ok ()) => interactiveLogin keySupplied ks rounds
    else if outcome.machineAuthorized then (ks, some (.ok .authorized))
    else
      match outcome.pendingAuthUrl with
      | some _ => interactiveLogin keySupplied ks rounds
      | none =>
        if keySupplied then (ks, some (.error (.transport "register: not authorized and no AuthURL".toList)))
        else interactiveLogin keySupplied ks rounds

theorem interactiveLogin_keeps (keySupplied : Bool) (ks : KeyStore derivePub) : ∀ rounds : List LoginRound,
    (∀ r ∈ rounds, r.expires = false) → (interactiveLogin keySupplied ks rounds).1 = ks
  | [], _ => rfl
  | .aborted _ :: _, _ => rfl
  | .connFailed e :: rounds, h => by
    have ih := interactiveLogin_keeps keySupplied ks rounds (fun r hr => h r (List.mem_cons_of_mem _ hr))
    unfold interactiveLogin
    split
    · rfl
    · exact ih
  | .refused e :: rounds, h => by
    have ih := interactiveLogin_keeps keySupplied ks rounds (fun r hr => h r (List.mem_cons_of_mem _ hr))
    unfold interactiveLogin
    split
    · rfl
    · exact ih
  | .answered outcome draw :: rounds, h => by
    have ih := interactiveLogin_keeps keySupplied ks rounds (fun r hr => h r (List.mem_cons_of_mem _ hr))
    have hvalid : ¬ (outcome.nodeKeyExpired && !outcome.machineAuthorized) = true :=
      Bool.eq_false_iff.1 (h _ List.mem_cons_self)
    unfold interactiveLogin
    rw [if_neg hvalid]
    split
    · rfl
    · split
      · exact ih
      · split
        · rfl
        · exact ih

/-! ## The runtime -/

/-- The runtime, as far as it holds keys: the loop with its engine, the key store, the node key magicsock puts in
its pings, the pair of the DERP mux, and the key last registered for a session. -/
structure Runtime (τ : Type) (derivePub : BitVec 256 → NodeKey) where
  loop : LoopState τ
  ks : KeyStore derivePub
  ourNodePub : NodeKey
  derpPriv : BitVec 256
  derpPub : NodeKey
  registered : Option NodeKey

variable {τ : Type} (b : Boringtun τ)

def Runtime.build (ourNodePub : NodeKey) (ks : KeyStore derivePub) (dir : StateDir) (wantRunning : Bool)
    (login : Except ControlError LoginOutcome) (opened : Except ControlError Unit) :
    Except ControlError (Runtime τ derivePub) :=
  (up b ks.nodePriv dir wantRunning login opened).map fun loop =>
    { loop := loop
      ks := ks
      ourNodePub := ourNodePub
      derpPriv := ks.nodePriv
      derpPub := ks.nodePub
      registered := loop.mapOpt.map (fun _ => ks.nodePub) }

def Runtime.up (derivePub : BitVec 256 → NodeKey) (file : KeyFile) (draw : Draw) (wantRunning keySupplied : Bool)
    (rounds : List LoginRound) (dir : StateDir) (opened : Except ControlError Unit) :
    Option (Except ControlError (Runtime τ derivePub)) :=
  match KeyStore.loadOrGenerate derivePub file draw with
  | .error e => some (.error e)
  | .ok ks =>
    -- magicsock is bound before the login
    if wantRunning then
      let r := interactiveLogin keySupplied ks rounds
      r.2.map (fun login => Runtime.build b ks.nodePub r.1 dir true login opened)
    else some (Runtime.build b ks.nodePub ks dir false (.ok .authorized) opened)

/-- An event of the node, with the key a logout draws. A bootstrap registers the key in the store; a logout that is
done replaces it, or warns that it could not. -/
def Runtime.step (s : Runtime τ derivePub) (e : NodeEvent × Draw) : Runtime τ derivePub :=
  let loop := s.loop.meet b e.1
  { s with
    loop := loop
    ks := if loop.trace = s.loop.trace ++ [.logout true] then (s.ks.regenerateNodeKey e.2).1 else s.ks
    registered := if loop.trace = s.loop.trace ++ [.bootstrap] then some s.ks.nodePub else s.registered }

def Runtime.Live (s : Runtime τ derivePub) : Prop := s.loop.exit = none ∧ s.loop.mapOpt ≠ none

structure Runtime.Agrees (s : Runtime τ derivePub) : Prop where
  registered : s.registered = some s.ourNodePub
  engine : derivePub s.loop.engine.ourStaticSecret = s.ourNodePub
  derpPriv : derivePub s.derpPriv = s.ourNodePub
  derpPub : s.derpPub = s.ourNodePub

/-! ## The key of the engine -/

theorem secret_upsertPeer (e : Engine τ) (cfg : Wg.PeerConfig) :
    (e.upsertPeer b cfg).ourStaticSecret = e.ourStaticSecret := by
  unfold Engine.upsertPeer
  split
  · split
    · split <;> rfl
    · rfl
  · rfl

theorem secret_pushDelta (e : Engine τ) (snap : NetMapSnapshot) (home : BitVec 16) :
    (pushDeltaToEngine b e snap home).ourStaticSecret = e.ourStaticSecret := by
  refine pushDelta_keeps b (fun e' => e'.ourStaticSecret = e.ourStaticSecret) (fun e' cfg h => ?_) (fun _ _ h => h)
    ?_ home
  · exact (secret_upsertPeer b e' cfg).trans h
  · unfold pushPolicy
    split
    · split <;> rfl
    · rfl

theorem secret_clearEnginePeers (s : LoopState τ) (ord : HashOrder NodeKey) :
    (s.clearEnginePeers ord).engine.ourStaticSecret = s.engine.ourStaticSecret := by
  have hkeep : ∀ (e : Engine τ) (k : NodeKey), e.ourStaticSecret = s.engine.ourStaticSecret →
      (e.removePeer k).ourStaticSecret = s.engine.ourStaticSecret := fun _ _ h => h
  exact run_keeps (fun e : Engine τ => e.ourStaticSecret = s.engine.ourStaticSecret) hkeep
    (ord.order s.peerRegions.keys) s.engine rfl

theorem secret_receive (fatal : Bool) (ord : HashOrder NodeKey) (s : LoopState τ) (d : Drained) :
    (s.receive fatal ord d).engine.ourStaticSecret = s.engine.ourStaticSecret := by
  unfold receive
  split
  · rfl
  · split
    · rfl
    · split <;> rfl
    · split
      · exact secret_clearEnginePeers s ord
      · rfl
    · rfl
    · rfl

theorem secret_drained (s : LoopState τ) (p : Pass) : (s.drained p).engine.ourStaticSecret = s.engine.ourStaticSecret :=
  run_keeps (fun t : LoopState τ => t.engine.ourStaticSecret = s.engine.ourStaticSecret)
    (fun t d h => (secret_receive _ p.ord t d).trans h) p.signals s rfl

theorem secret_logOut (s : LoopState τ) (p : Pass) :
    (s.logOut p).engine.ourStaticSecret = s.engine.ourStaticSecret := by
  unfold logOut performLogout
  split
  · rfl
  · exact secret_clearEnginePeers _ p.ord

theorem secret_poll (s : LoopState τ) (m : MapClient) (p : Pass) :
    (s.poll b m p).engine.ourStaticSecret = s.engine.ourStaticSecret := by
  unfold poll
  simp only
  split
  · exact fail_keeps (fun t => t.engine.ourStaticSecret) (fun _ _ _ => rfl) _ _ rfl
  next event _ =>
    cases event with
    | snapshot snap => exact secret_pushDelta b s.engine snap p.homeRegion
    | keepAlive _ | idle => rfl

theorem secret_step (s : LoopState τ) (p : Pass) : (s.step b p).engine.ourStaticSecret = s.engine.ourStaticSecret := by
  let secret : LoopState τ → BitVec 256 := fun t => t.engine.ourStaticSecret
  have hdrain := secret_drained s p
  have hwent := went b s p
  generalize s.step b p = s' at hwent ⊢
  cases hwent with
  | left | stopped => rfl
  | relogin => exact hdrain
  | logout => exact (secret_logOut _ p).trans hdrain
  | parked | loggedOut => exact (sleep_keeps secret (fun _ _ => rfl) _ p).trans hdrain
  | backingOff | unauthorized => exact hdrain
  | refused e =>
    refine (fail_keeps secret (fun _ _ _ => rfl) _ e ?_).trans hdrain
    rfl
  | polled hl =>
    rw [secret_poll]
    cases hl with
    | held | fresh => exact hdrain

theorem secret_pump (e : Engine τ) {ev : EngineEvent} (h : ev.isPump = true) :
    (e.step b ev).ourStaticSecret = e.ourStaticSecret := by
  cases ev with
  | inbound ord src d now | tick ord hint now => rfl
  | outbound hint p now =>
    simp only [Engine.step, Wg.handleOutbound]
    split
    · rfl
    · split <;> rfl
  | _ => cases h

theorem secret_meet (s : LoopState τ) (ev : NodeEvent) :
    (s.meet b ev).engine.ourStaticSecret = s.engine.ourStaticSecret := by
  cases ev with
  | pass p => exact secret_step b s p
  | pump ev => exact secret_pump b s.engine ev.2

/-! ## The key of the session -/

structure Runtime.From (s₀ s : Runtime τ derivePub) : Prop where
  ourNodePub : s.ourNodePub = s₀.ourNodePub
  derpPriv : s.derpPriv = s₀.derpPriv
  derpPub : s.derpPub = s₀.derpPub
  engine : s.loop.engine.ourStaticSecret = s₀.loop.engine.ourStaticSecret

theorem Runtime.From.step {s0 s : Runtime τ derivePub} (h : Runtime.From s0 s) (e : NodeEvent × Draw) :
    Runtime.From s0 (s.step b e) :=
  ⟨h.ourNodePub, h.derpPriv, h.derpPub, (secret_meet b s.loop e.1).trans h.engine⟩

structure Runtime.Fresh (s : Runtime τ derivePub) : Prop where
  engine : s.loop.engine.ourStaticSecret = s.ks.nodePriv
  derpPriv : s.derpPriv = s.ks.nodePriv
  derpPub : s.derpPub = s.ks.nodePub
  registered : s.loop.mapOpt ≠ none → s.registered = some s.ks.nodePub

theorem build_fresh {ourNodePub : NodeKey} {ks : KeyStore derivePub} {dir : StateDir} {want : Bool}
    {login : Except ControlError LoginOutcome} {opened : Except ControlError Unit} {s : Runtime τ derivePub}
    (h : Runtime.build b ourNodePub ks dir want login opened = .ok s) :
    s.Fresh ∧ s.ks = ks ∧ s.ourNodePub = ourNodePub := by
  unfold Runtime.build at h
  cases hup : up b ks.nodePriv dir want login opened with
  | error e =>
    rw [hup] at h
    cases h
  | ok loop =>
    rw [hup] at h
    cases h
    have hengine : loop.engine.ourStaticSecret = ks.nodePriv := by
      rw [(up_started b hup).engine]
      rfl
    refine ⟨⟨hengine, rfl, rfl, fun hne => ?_⟩, rfl, rfl⟩
    obtain ⟨m, hm⟩ := Option.ne_none_iff_exists'.1 hne
    simp only
    rw [hm]
    rfl

theorem up_fresh {file : KeyFile} {draw : Draw} {want keySupplied : Bool} {rounds : List LoginRound} {dir : StateDir}
    {opened : Except ControlError Unit} {s : Runtime τ derivePub}
    (h : Runtime.up b derivePub file draw want keySupplied rounds dir opened = some (.ok s)) :
    s.Fresh ∧ ((∀ r ∈ rounds, r.expires = false) → s.ourNodePub = s.ks.nodePub) := by
  unfold Runtime.up at h
  split at h
  · cases h
  next ks hload =>
    split at h
    · simp only [Option.map_eq_some_iff] at h
      obtain ⟨login, -, hbuild⟩ := h
      obtain ⟨hfresh, hks, hpub⟩ := build_fresh b hbuild
      refine ⟨hfresh, fun hvalid => ?_⟩
      rw [hpub, hks, interactiveLogin_keeps keySupplied ks rounds hvalid]
    · obtain ⟨hfresh, hks, hpub⟩ := build_fresh b (Option.some.inj h)
      refine ⟨hfresh, fun _ => ?_⟩
      rw [hpub, hks]

def Runtime.Rotates (s : Runtime τ derivePub) (e : NodeEvent × Draw) : Prop :=
  (s.loop.meet b e.1).trace = s.loop.trace ++ [.logout true] ∧ e.2.written = true

structure Runtime.Holds (s₀ s : Runtime τ derivePub) : Prop where
  ks : s.ks = s₀.ks
  registered : s.Live → s.registered = some s₀.ks.nodePub

theorem Runtime.Holds.step {s0 s : Runtime τ derivePub} (h : Runtime.Holds s0 s) (e : NodeEvent × Draw)
    (hno : ¬ s.Rotates b e) : Runtime.Holds s0 (s.step b e) := by
  refine ⟨?_, fun hlive => ?_⟩
  · simp only [Runtime.step]
    split
    next hout =>
      have hwritten : e.2.written = false := Bool.eq_false_iff.2 (fun hw => hno ⟨hout, hw⟩)
      unfold KeyStore.regenerateNodeKey generateAndPersist
      rw [hwritten]
      exact h.ks
    · exact h.ks
  · simp only [Runtime.step]
    split
    · rw [h.ks]
    next hcall =>
      obtain ⟨hexit, hm⟩ := hlive
      refine h.registered ?_
      obtain ⟨ev, draw⟩ := e
      cases ev with
      | pump ev => exact ⟨hexit, hm⟩
      | pass p =>
        -- a session that was not bootstrapped now was live before
        exact ⟨running_of_step b hexit, (held_or_bootstrapped b hexit hm).resolve_right hcall⟩

/-- **When a node speaks under one key**: for every key file, login and run, its keys agree exactly when the login left
magicsock the key it started with and the session was registered under the key the login ended with. -/
theorem node_identity_agrees_iff {file : KeyFile} {draw : Draw} {want keySupplied : Bool} {rounds : List LoginRound}
    {dir : StateDir} {opened : Except ControlError Unit} {s₀ : Runtime τ derivePub}
    (hup : Runtime.up b derivePub file draw want keySupplied rounds dir opened = some (.ok s₀))
    (events : List (NodeEvent × Draw)) :
    let s := run (Runtime.step b) s₀ events
    (s.Agrees ↔ s₀.ourNodePub = s₀.ks.nodePub ∧ s.registered = some s₀.ks.nodePub) ∧
    ((∀ r ∈ rounds, r.expires = false) → Along (Runtime.step b) (fun s e => ¬ s.Rotates b e) s₀ events → s.Live →
      s.Agrees) := by
  intro s
  obtain ⟨hfresh, hkept⟩ := up_fresh b hup
  have hfrom : Runtime.From s₀ s :=
    run_keeps (Runtime.From s₀) (fun _ e h => h.step b e) events s₀ ⟨rfl, rfl, rfl, rfl⟩
  have hengine : derivePub s.loop.engine.ourStaticSecret = s₀.ks.nodePub := by
    rw [hfrom.engine, hfresh.engine, s₀.ks.derived]
  have hpriv : derivePub s.derpPriv = s₀.ks.nodePub := by
    rw [hfrom.derpPriv, hfresh.derpPriv, s₀.ks.derived]
  have hpub : s.derpPub = s₀.ks.nodePub := hfrom.derpPub.trans hfresh.derpPub
  have hiff : s.Agrees ↔ s₀.ourNodePub = s₀.ks.nodePub ∧ s.registered = some s₀.ks.nodePub := by
    constructor
    · intro h
      have hsame : s.ourNodePub = s₀.ks.nodePub := h.engine.symm.trans hengine
      exact ⟨hfrom.ourNodePub.symm.trans hsame, hsame ▸ h.registered⟩
    · rintro ⟨hmagic, hreg⟩
      have hsame : s.ourNodePub = s₀.ks.nodePub := hfrom.ourNodePub.trans hmagic
      exact ⟨hsame ▸ hreg, hengine.trans hsame.symm, hpriv.trans hsame.symm, hpub.trans hsame.symm⟩
  refine ⟨hiff, fun hvalid halong hlive => hiff.2 ⟨hkept hvalid, ?_⟩⟩
  have hholds : Runtime.Holds s₀ s :=
    run_inv (Runtime.Holds s₀) (fun _ e h hno => h.step b e hno) events s₀
      ⟨rfl, fun hlive => hfresh.registered hlive.2⟩ halong
  exact hholds.registered hlive

end

def storedKey : KeyFile := .bytes (List.replicate 32 1)

theorem node_identity_agrees_iff_stored :
    ∃ s₀ : Runtime Unit id,
      Runtime.up Wg.clearTunn id storedKey ⟨2, true⟩ true false [.answered {} ⟨3, true⟩] {} (.ok ()) =
        some (.ok s₀) ∧
      let s := run (Runtime.step Wg.clearTunn) s₀ [(.pass { ord := Ctl.nodeKeyOrder }, ⟨4, true⟩)]
      s.Live ∧ s.Agrees := by
  have hup : Runtime.up Wg.clearTunn id storedKey ⟨2, true⟩ true false [.answered {} ⟨3, true⟩] {} (.ok ()) =
      some (.ok _) := rfl
  refine ⟨_, hup, ?_⟩
  intro s
  have hlive : s.Live :=
    ⟨Option.isNone_iff_eq_none.1 (by decide +kernel), Option.isSome_iff_ne_none.1 (by decide +kernel)⟩
  refine ⟨hlive, (node_identity_agrees_iff Wg.clearTunn hup _).2 (by decide) ⟨?_, trivial⟩ hlive⟩
  intro hrot
  exact absurd hrot.1 (by decide +kernel)

/-- **A live session under a key the node does not speak under.** When the login hears that the stored key has expired,
magicsock goes on with it; when the node is logged out, taken down and up again, everything but the session goes on
with the old one. -/
theorem registered_key_is_not_spoken :
    let draw : Draw := ⟨4, true⟩
    (∃ s₀ : Runtime Unit id,
      Runtime.up Wg.clearTunn id storedKey draw true false
          [.answered { machineAuthorized := false, nodeKeyExpired := true } ⟨2, true⟩, .answered {} ⟨3, true⟩] {}
          (.ok ()) = some (.ok s₀) ∧
        s₀.loop.mapOpt.isSome ∧ s₀.registered = some 2 ∧ s₀.derpPub = 2 ∧ s₀.loop.engine.ourStaticSecret = 2 ∧
        s₀.ourNodePub ≠ 2) ∧
    ∃ s₀ : Runtime Unit id,
      Runtime.up Wg.clearTunn id storedKey draw true true [.answered {} ⟨3, true⟩] {} (.ok ()) = some (.ok s₀) ∧
      let s := run (Runtime.step Wg.clearTunn) s₀
        [(.pass (signalled .logout (.done .removed .removed)), ⟨2, true⟩),
         (.pass (signalled (.setWantRunning false) .failed), draw),
         (.pass (signalled (.setWantRunning true) .failed), draw)]
      s.loop.exit.isNone ∧ s.loop.mapOpt.isSome ∧ s.registered = some 2 ∧ s.derpPub ≠ 2 ∧
        s.loop.engine.ourStaticSecret ≠ 2 ∧ s.ourNodePub ≠ 2 := by
  intro draw
  exact ⟨⟨_, rfl, by decide +kernel, by decide +kernel, by decide +kernel, by decide +kernel, by decide +kernel⟩,
    ⟨_, rfl, by decide +kernel, by decide +kernel, by decide +kernel, by decide +kernel, by decide +kernel,
      by decide +kernel⟩⟩

end TailscaleVita.Rt
