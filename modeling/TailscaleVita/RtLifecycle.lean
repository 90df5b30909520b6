import TailscaleVita.CtlMap
/-!
# RtLifecycle — the connection state machine (`tailscale-vita/src/lifecycle.rs`)

An instant is a number of nanoseconds on one monotonic clock, and `saturating_duration_since` is truncated subtraction.
-/
namespace TailscaleVita.Rt

open Ctl (ControlError)

abbrev Instant := Nat

def secs (n : Nat) : Nat := n * 1000000000

def degradedAfter : Nat := secs 60
def heartbeatInterval : Nat := secs 60
def offlineReconnectThreshold : BitVec 32 := 5
def offlineDiagAfter : Nat := secs 600

inductive FatalKind where
  | auth
  | security
deriving DecidableEq

inductive OnlineState where
  | connecting
  | online
  | degraded
  | offline
  | needsLogin
  | authFailed
  | securityFailed
  | stopped
deriving DecidableEq

def OnlineState.isFatal : OnlineState → Bool
  | .authFailed => true
  | .securityFailed => true
  | _ => false

structure LifecycleTracker where
  state : OnlineState := .connecting
  firstMapEvent : Option Instant := none
  firstDerpRx : Option Instant := none
  lastMapEvent : Option Instant := none
  lastDerpRx : Option Instant := none
  consecutiveControlReconnects : BitVec 32 := 0
  consecutiveDerpReconnects : BitVec 32 := 0
  lastHeartbeat : Option Instant := none
  offlineSince : Option Instant := none
  offlineDiagFired : Bool := false
  fatalReason : Option ControlError := none

namespace LifecycleTracker

def markFatal (t : LifecycleTracker) (kind : FatalKind) (reason : ControlError) : LifecycleTracker :=
  { t with
    state := match kind with
      | .auth => .authFailed
      | .security => .securityFailed
    fatalReason := some reason }

def setNeedsLogin (t : LifecycleTracker) : LifecycleTracker := { t with state := .needsLogin }

def clearNeedsLogin (t : LifecycleTracker) : LifecycleTracker :=
  if t.state = .needsLogin then { t with state := .connecting } else t

def setStopped (t : LifecycleTracker) : LifecycleTracker := { t with state := .stopped }

def clearStopped (t : LifecycleTracker) : LifecycleTracker :=
  if t.state = .stopped then { t with state := .connecting } else t

def recordMapEvent (t : LifecycleTracker) (now : Instant) : LifecycleTracker :=
  { t with
    firstMapEvent := some (t.firstMapEvent.getD now)
    lastMapEvent := some now
    consecutiveControlReconnects := 0 }

def recordDerpRx (t : LifecycleTracker) (now : Instant) : LifecycleTracker :=
  { t with
    firstDerpRx := some (t.firstDerpRx.getD now)
    lastDerpRx := some now
    consecutiveDerpReconnects := 0 }

def recordControlReconnect (t : LifecycleTracker) : LifecycleTracker :=
  { t with consecutiveControlReconnects := t.consecutiveControlReconnects + 1 }

def recordDerpReconnect (t : LifecycleTracker) : LifecycleTracker :=
  { t with consecutiveDerpReconnects := t.consecutiveDerpReconnects + 1 }

def mostRecent (t : LifecycleTracker) : Option Instant :=
  match t.lastMapEvent, t.lastDerpRx with
  | some m, some d => some (max m d)
  | some m, none => some m
  | none, some d => some d
  | none, none => none

def computeNextState (t : LifecycleTracker) (now : Instant) : OnlineState :=
  if t.state.isFatal then t.state
  else if t.state = .stopped then t.state
  else if offlineReconnectThreshold ≤ t.consecutiveControlReconnects ∨
      offlineReconnectThreshold ≤ t.consecutiveDerpReconnects then .offline
  else if t.firstMapEvent.isNone ∨ t.firstDerpRx.isNone then .connecting
  else
    match t.mostRecent with
    | none => .connecting
    | some last => if degradedAfter < now - last then .degraded else .online

def transition (t : LifecycleTracker) (now : Instant) : LifecycleTracker :=
  let new := t.computeNextState now
  if new = t.state then t
  else if new = .offline then { t with state := new, offlineSince := some now, offlineDiagFired := false }
  else { t with state := new, offlineSince := none }

def heartbeat (t : LifecycleTracker) (now : Instant) : LifecycleTracker :=
  match t.lastHeartbeat with
  | some last => if heartbeatInterval ≤ now - last then { t with lastHeartbeat := some now } else t
  | none => { t with lastHeartbeat := some now }

def diagnose (t : LifecycleTracker) (now : Instant) : LifecycleTracker :=
  match t.offlineSince with
  | some since =>
    if t.offlineDiagFired = false ∧ offlineDiagAfter ≤ now - since then { t with offlineDiagFired := true } else t
  | none => t

def tick (t : LifecycleTracker) (now : Instant) : LifecycleTracker := ((t.transition now).heartbeat now).diagnose now

end LifecycleTracker

/-- The tracker's mutating operations; the counts `tick` logs are left out. -/
inductive LifecycleOp where
  | markFatal (kind : FatalKind) (reason : ControlError)
  | setNeedsLogin
  | clearNeedsLogin
  | setStopped
  | clearStopped
  | recordMapEvent (now : Instant)
  | recordDerpRx (now : Instant)
  | recordControlReconnect
  | recordDerpReconnect
  | tick (now : Instant)

def LifecycleTracker.apply (t : LifecycleTracker) : LifecycleOp → LifecycleTracker
  | .markFatal kind reason => t.markFatal kind reason
  | .setNeedsLogin => t.setNeedsLogin
  | .clearNeedsLogin => t.clearNeedsLogin
  | .setStopped => t.setStopped
  | .clearStopped => t.clearStopped
  | .recordMapEvent now => t.recordMapEvent now
  | .recordDerpRx now => t.recordDerpRx now
  | .recordControlReconnect => t.recordControlReconnect
  | .recordDerpReconnect => t.recordDerpReconnect
  | .tick now => t.tick now

end TailscaleVita.Rt
