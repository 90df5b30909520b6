import TailscaleVita.RtDelta
import TailscaleVita.RtLifecycle
/-!
# RtLoop — the event loop (`tailscale-vita/src/runtime.rs`, `run_event_loop`)

A pass of the loop drains the control signals, then parks, logs out, reconnects or reads one map event. `Pass` is
everything a pass meets from outside: signals, answers of the control server, of the file system and of the clock.
-/
namespace TailscaleVita.Rt

open Ctl (NodeKey NetMapSnapshot StateDir ControlError MapClient MapEvent)
open Wg (Engine Boringtun)

inductive ControlSignal where
  | forceReconnect
  | setWantRunning (desired : Bool)
  | logout
  | loginInteractive
deriving DecidableEq

inductive ErrorClass where
  | authFatal
  | securityFatal
  | transient
deriving DecidableEq

def classifyControlError : ControlError → ErrorClass
  | .authRejected => .authFatal
  | .http status => if status = 401 ∨ status = 403 ∨ status = 410 then .authFatal else .transient
  | .transport message => if contains "MachineAuthorized=false".toList message then .authFatal else .transient
  | .badServerKey => .securityFatal
  | .serverKeyChanged => .securityFatal
  | .unpinnedHttpControl => .securityFatal
  | _ => .transient

structure RegisterOutcome where
  machineAuthorized : Bool := true
  nodeKeyExpired : Bool := false
  pendingAuthUrl : Option Text := none

inductive BootstrapOutcome where
  | session (m : MapClient)
  | needsInteractiveLogin

def bootstrapControlSession (dir : StateDir) (register : Except ControlError RegisterOutcome)
    (opened : Except ControlError Unit) : Except ControlError BootstrapOutcome :=
  match register with
  | .error e => .error e
  | .ok outcome =>
    if outcome.nodeKeyExpired then .ok .needsInteractiveLogin
    else if outcome.pendingAuthUrl.isSome then .ok .needsInteractiveLogin
    else
      match (MapClient.start dir opened).2 with
      | .error e => .error e
      | .ok m => .ok (.session m)

def updatePeerRegions (regions : HashMap NodeKey (BitVec 16)) (snap : NetMapSnapshot) (ourHome : BitVec 16) :
    HashMap NodeKey (BitVec 16) :=
  let regions := snap.delta.upserted.foldl (fun m p => m.insert p.nodeKey (relayRegion ourHome p)) regions
  let regions := snap.delta.removed.foldl (fun m k => m.erase k) regions
  snap.delta.rekeyed.foldl
    (fun m r => (m.erase r.oldKey).insert r.snapshot.nodeKey (relayRegion ourHome r.snapshot)) regions

inductive LoopExit where
  | stopped
  | needsRelogin
  | failed (e : ControlError)

inductive LoopAction where
  | bootstrap
  | logout (done : Bool)
deriving DecidableEq

structure Drained where
  signal : ControlSignal
  seqFile : StateDir.Deletion := .removed
  handleFile : StateDir.Deletion := .removed

inductive LogoutResult where
  | failed
  | done (seqFile handleFile : StateDir.Deletion)
deriving DecidableEq

structure Pass where
  shouldStop : Bool := false
  signals : List Drained := []
  ord : HashOrder NodeKey
  logout : LogoutResult := .failed
  sleepStops : Bool := false
  register : Except ControlError RegisterOutcome := .ok {}
  opened : Except ControlError Unit := .ok ()
  polled : MapClient.Polled := .timeout
  now : Instant := 0
  homeRegion : BitVec 16 := 0
  aliveRegions : Nat := 0

structure LoopState (τ : Type) where
  wantRunning : Bool
  lifecycle : LifecycleTracker
  mapOpt : Option MapClient
  engine : Engine τ
  peerRegions : HashMap NodeKey (BitVec 16) := ∅
  dir : StateDir
  reconnectAttempt : Nat := 0
  logoutRequested : Bool := false
  loginInteractiveRequested : Bool := false
  trace : List LoopAction := []
  exit : Option LoopExit := none

inductive Phase (τ : Type) where
  | done (s : LoopState τ)
  | listen (s : LoopState τ) (m : MapClient)

namespace LoopState

variable {τ : Type} (b : Boringtun τ)

def clearEnginePeers (s : LoopState τ) (ord : HashOrder NodeKey) : LoopState τ :=
  { s with
    engine := (ord.order s.peerRegions.keys).foldl (fun e k => e.removePeer k) s.engine
    peerRegions := ∅ }

def receive (fatal : Bool) (ord : HashOrder NodeKey) (s : LoopState τ) (d : Drained) : LoopState τ :=
  if fatal then s
  else
    match d.signal with
    | .forceReconnect => { s with mapOpt := none, reconnectAttempt := 0 }
    | .setWantRunning true =>
      if s.wantRunning then s
      else
        { s with
          wantRunning := true
          lifecycle := s.lifecycle.clearStopped
          mapOpt := none
          reconnectAttempt := 0 }
    | .setWantRunning false =>
      if s.wantRunning then
        { s.clearEnginePeers ord with
          wantRunning := false
          lifecycle := s.lifecycle.setStopped
          mapOpt := none
          dir := s.dir.deleteSessionState d.seqFile d.handleFile
          reconnectAttempt := 0 }
      else s
    | .logout => { s with logoutRequested := true }
    | .loginInteractive => { s with loginInteractiveRequested := true }

def drain (s : LoopState τ) (p : Pass) : LoopState τ :=
  p.signals.foldl (receive s.lifecycle.state.isFatal p.ord) s

def performLogout (s : LoopState τ) (ord : HashOrder NodeKey) : LogoutResult → LoopState τ
  | .failed => { s with trace := s.trace ++ [.logout false] }
  | .done seqFile handleFile =>
    { s.clearEnginePeers ord with
      mapOpt := none
      dir := s.dir.deleteSessionState seqFile handleFile
      lifecycle := s.lifecycle.setNeedsLogin
      trace := s.trace ++ [.logout true] }

def fail (s : LoopState τ) (e : ControlError) (retry : LoopState τ) : LoopState τ :=
  match classifyControlError e with
  | .authFatal => { s with lifecycle := s.lifecycle.markFatal .auth e, exit := some (.failed e) }
  | .securityFatal => { s with lifecycle := s.lifecycle.markFatal .security e, exit := some (.failed e) }
  | .transient => retry

def sleep (s : LoopState τ) (p : Pass) : LoopState τ := if p.sleepStops then { s with exit := some .stopped } else s

def reconnect (s : LoopState τ) (p : Pass) : Phase τ :=
  if p.sleepStops then .done { s with exit := some .stopped }
  else
    let s : LoopState τ := { s with trace := s.trace ++ [.bootstrap] }
    match bootstrapControlSession s.dir p.register p.opened with
    | .ok (.session m) => .listen { s with mapOpt := some m } m
    | .ok .needsInteractiveLogin => .done { s with exit := some .needsRelogin }
    | .error e => .done (s.fail e { s with reconnectAttempt := min (s.reconnectAttempt + 1) (2 ^ 32 - 1) })

def logOut (s : LoopState τ) (p : Pass) : LoopState τ :=
  { ({ s with logoutRequested := false } : LoopState τ).performLogout p.ord p.logout with
    wantRunning := true
    reconnectAttempt := 0 }

def proceed (s : LoopState τ) (p : Pass) : Phase τ :=
  if s.logoutRequested then .done (s.logOut p)
  else if s.wantRunning then
    match s.mapOpt with
    | some m => .listen s m
    | none => if s.lifecycle.state = .needsLogin then .done (s.sleep p) else s.reconnect p
  else .done (({ s with lifecycle := s.lifecycle.setStopped } : LoopState τ).sleep p)

def beforePoll (s : LoopState τ) (p : Pass) : Phase τ :=
  let s := s.drain p
  if s.loginInteractiveRequested ∧ s.wantRunning then
    .done { s with loginInteractiveRequested := false, exit := some .needsRelogin }
  else ({ s with loginInteractiveRequested := false } : LoopState τ).proceed p

def handleEvent (s : LoopState τ) (p : Pass) : MapEvent → LoopState τ
  | .snapshot snap =>
    { s with
      lifecycle := s.lifecycle.recordMapEvent p.now
      engine := pushDeltaToEngine b s.engine snap p.homeRegion
      peerRegions := updatePeerRegions s.peerRegions snap p.homeRegion }
  | .keepAlive _ => { s with lifecycle := s.lifecycle.recordMapEvent p.now }
  | .idle => s

def settle (s : LoopState τ) (p : Pass) : LoopState τ :=
  let heard := if p.aliveRegions = 0 then s.lifecycle else s.lifecycle.recordDerpRx p.now
  { s with lifecycle := heard.tick p.now }

def dropSession (s : LoopState τ) (e : ControlError) : LoopState τ :=
  s.fail e { s with lifecycle := s.lifecycle.recordControlReconnect, mapOpt := none, reconnectAttempt := 0 }

def poll (s : LoopState τ) (m : MapClient) (p : Pass) : LoopState τ :=
  let r := m.nextEvent s.dir p.ord p.polled
  let s := { s with mapOpt := some r.1, dir := r.2.1 }
  match r.2.2 with
  | .error e => s.dropSession e
  | .ok event => (({ s with reconnectAttempt := 0 } : LoopState τ).handleEvent b p event).settle p

def finish (p : Pass) : Phase τ → LoopState τ
  | .done s => s
  | .listen s m => s.poll b m p

def step (s : LoopState τ) (p : Pass) : LoopState τ :=
  if s.exit.isSome then s
  else if p.shouldStop then { s with exit := some .stopped }
  else finish b p (s.beforePoll p)

end LoopState

inductive LoginOutcome where
  | authorized
  | parked
  | loggedOut
  | shutdown

def LoopState.up {τ : Type} (b : Boringtun τ) (secret : BitVec 256) (dir : StateDir) (wantRunning : Bool)
    (login : Except ControlError LoginOutcome) (opened : Except ControlError Unit) :
    Except ControlError (LoopState τ) :=
  let idle (want : Bool) (lifecycle : LifecycleTracker) : LoopState τ :=
    { wantRunning := want, lifecycle := lifecycle, mapOpt := none, engine := Engine.new b secret [], dir := dir }
  if wantRunning then
    match login with
    | .error e => .error e
    | .ok .authorized =>
      match (MapClient.start dir opened).2 with
      | .error e => .error e
      | .ok m => .ok { idle true {} with mapOpt := some m }
    | .ok .parked => .ok (idle false ({ } : LifecycleTracker).setStopped)
    | .ok .loggedOut => .ok (idle true ({ } : LifecycleTracker).setNeedsLogin)
    | .ok .shutdown => .ok (idle true ({ } : LifecycleTracker).setStopped)
  else .ok (idle false ({ } : LifecycleTracker).setStopped)

def authorizedLoop : LoopState Unit :=
  { wantRunning := true
    lifecycle := {}
    mapOpt := some ⟨{}⟩
    engine := Engine.new Wg.clearTunn 0 []
    dir := {} }

theorem up_authorizedLoop : LoopState.up Wg.clearTunn 0 {} true (.ok .authorized) (.ok ()) = .ok authorizedLoop := rfl

end TailscaleVita.Rt
