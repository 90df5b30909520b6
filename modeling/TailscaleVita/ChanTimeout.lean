import TailscaleVita.Chan
/-!
# ChanTimeout — the timed calls of a channel (`vita-chan/src/lib.rs`, `vita-sync/src/vita.rs`)

`recv_timeout` and `send_timeout` sleep in `Condvar::wait_timeout`, each time for what is left of their duration. One
call is followed round by round; what it finds under the lock, how long it takes to get there and how its sleep ends
are a round's input. Times are in nanoseconds; `tick` is the resolution of the clock behind `Instant`.
-/
namespace TailscaleVita.Chan

def sceKernelErrorWaitTimeout : BitVec 32 := 0x80028001

inductive Woken where
  | signalled (ticks : Nat)
  | timedOut (late : Nat)

def sceKernelWaitCond (tick : Nat) (timeout : BitVec 32) : Woken → BitVec 32 × Nat
  | .signalled ticks => (0, ticks * tick)
  | .timedOut late => (sceKernelErrorWaitTimeout, timeout.toNat * 1000 + late)

def waitTimeout (tick dur : Nat) (woken : Woken) : Bool × Nat :=
  let timeout := BitVec.ofNat 32 (min (dur / 1000) (2 ^ 32 - 1))
  let (rc, slept) := sceKernelWaitCond tick timeout woken
  let timedOut := decide (rc = sceKernelErrorWaitTimeout) || (rc.slt 0 && decide (rc &&& 0xffff = 0x8001))
  (timedOut || rc.slt 0, slept)

/-- A round of a timed call: how long it takes to the look under the lock, what it finds then, and how the sleep
ends, if it comes to that. -/
structure Round (α : Type) where
  lag : Nat := 0
  queue : List α := []
  others : Nat := 1
  woken : Woken := .timedOut 0

section

variable {α ρ : Type} (tick : Nat)

def timedLoop (look : Round α → Option ρ) (timeout : ρ) : (remaining now : Nat) → List (Round α) → Option (ρ × Nat)
  | _, _, [] => none
  | remaining, now, r :: rs =>
    match look r with
    | some result => some (result, now + r.lag)
    | none =>
      if remaining = 0 then some (timeout, now + r.lag)
      else
        let (timedOut, slept) := waitTimeout tick remaining r.woken
        timedLoop look timeout (if timedOut then 0 else remaining - slept) (now + r.lag + slept) rs

def recvLook (r : Round α) : Option (RecvResult α) :=
  match r.queue with
  | v :: _ => some (.ok v)
  | [] => if r.others = 0 then some .disconnected else none

def recvTimeout (dur : Nat) (rounds : List (Round α)) : Option (RecvResult α × Nat) :=
  timedLoop tick recvLook .empty dur 0 rounds

def sendLook (cap : Option Nat) (value : α) (r : Round α) : Option (SendResult α) :=
  if r.others = 0 then some (.disconnected value)
  else if isFull cap r.queue.length then none
  else some .ok

def sendTimeout (cap : Option Nat) (value : α) (dur : Nat) (rounds : List (Round α)) : Option (SendResult α × Nat) :=
  timedLoop tick (sendLook cap value) (.full value) dur 0 rounds

def NeverEarly (dur : Nat) (timeout : ρ) (call : List (Round α) → Option (ρ × Nat)) : Prop :=
  ∀ rounds t, call rounds = some (timeout, t) → dur / 1000 ≤ t / 1000

theorem waitTimeout_timedOut (dur late : Nat) :
    waitTimeout tick dur (.timedOut late) = (true, min (dur / 1000) (2 ^ 32 - 1) * 1000 + late) := by
  have hlt : min (dur / 1000) (2 ^ 32 - 1) < 2 ^ 32 := by omega
  refine Prod.ext rfl ?_
  change (BitVec.ofNat 32 (min (dur / 1000) (2 ^ 32 - 1))).toNat * 1000 + late = _
  rw [BitVec.toNat_ofNat, Nat.mod_eq_of_lt hlt]

def OnTime (dur remaining now : Nat) : Prop :=
  (∃ ticks, remaining = dur - ticks * tick ∧ ticks * tick ≤ now) ∨ remaining = 0 ∧ dur / 1000 ≤ now / 1000

variable {tick} {dur : Nat}

theorem OnTime.slept {remaining now : Nat} (h : OnTime tick dur remaining now) (hleft : remaining ≠ 0) (lag : Nat)
    (hfits : dur / 1000 < 2 ^ 32) (hround : ∀ ticks, ticks * tick < dur → (dur - ticks * tick) % 1000 ≤ dur % 1000)
    (woken : Woken) :
    let (timedOut, slept) := waitTimeout tick remaining woken
    OnTime tick dur (if timedOut then 0 else remaining - slept) (now + lag + slept) := by
  obtain ⟨ticks, rfl, hticks⟩ | ⟨hzero, -⟩ := h
  · cases woken with
    | signalled more =>
      refine .inl ⟨ticks + more, ?_, ?_⟩
      · change dur - ticks * tick - more * tick = _
        rw [Nat.sub_sub, Nat.add_mul]
      · rw [Nat.add_mul]
        exact Nat.add_le_add_right (Nat.le_add_right_of_le hticks) _
    | timedOut late =>
      rw [waitTimeout_timedOut]
      have hdown := hround ticks (by omega)
      exact .inr ⟨rfl, by omega⟩
  · exact absurd hzero hleft

theorem neverEarly_timedLoop {look : Round α → Option ρ} {timeout : ρ} (hlook : ∀ r, look r ≠ some timeout)
    (hfits : dur / 1000 < 2 ^ 32) (hround : ∀ ticks, ticks * tick < dur → (dur - ticks * tick) % 1000 ≤ dur % 1000) :
    NeverEarly dur timeout (timedLoop tick look timeout dur 0) := by
  -- by induction on the rounds: what is left is on time at every look
  have hloop : ∀ (rounds : List (Round α)) (remaining now t : Nat), OnTime tick dur remaining now →
      timedLoop tick look timeout remaining now rounds = some (timeout, t) → dur / 1000 ≤ t / 1000 := by
    intro rounds
    induction rounds with
    | nil =>
      intro remaining now t _ h
      cases h
    | cons r rs ih =>
      intro remaining now t honTime h
      rw [timedLoop] at h
      split at h
      next result hsettled =>
        cases h
        exact absurd hsettled (hlook r)
      · split at h
        next hzero =>
          cases h
          obtain ⟨ticks, hleft, hticks⟩ | ⟨-, hlate⟩ := honTime
          · omega
          · omega
        next hleft => exact ih _ _ t (honTime.slept hleft r.lag hfits hround r.woken) h
  exact fun rounds t => hloop rounds dur 0 t (.inl ⟨0, by simp, by simp⟩)

theorem recvTimeout_woken (ticks : Nat) (h : ticks * tick < dur) :
    recvTimeout tick dur [({ woken := .signalled ticks } : Round α), {}, {}] =
      some (.empty, ticks * tick + min ((dur - ticks * tick) / 1000) (2 ^ 32 - 1) * 1000) := by
  have hleft : dur ≠ 0 := by omega
  have hleft' : dur - ticks * tick ≠ 0 := by omega
  have hslept : waitTimeout tick dur (.signalled ticks) = (false, ticks * tick) := rfl
  simp [recvTimeout, timedLoop, recvLook, hslept, waitTimeout_timedOut, hleft, hleft']

end

/-- **When the timed calls never time out early**, over every pattern of spurious and stolen wakeups: exactly when the
duration is a 32-bit number of microseconds, which is what the kernel is given, and no wakeup leaves a remaining time
that is further past a microsecond than the duration is, since it is rounded down at every sleep. -/
theorem timed_calls_never_early_iff {α : Type} (tick : Nat) (cap : Option Nat) (value : α) (dur : Nat) :
    (NeverEarly dur .empty (@recvTimeout α tick dur) ∧
      NeverEarly dur (.full value) (sendTimeout tick cap value dur)) ↔
    dur / 1000 < 2 ^ 32 ∧ ∀ ticks, ticks * tick < dur → (dur - ticks * tick) % 1000 ≤ dur % 1000 := by
  constructor
  · rintro ⟨hrecv, -⟩
    have hearly : ∀ ticks, ticks * tick < dur →
        dur / 1000 ≤ (ticks * tick + min ((dur - ticks * tick) / 1000) (2 ^ 32 - 1) * 1000) / 1000 :=
      fun ticks h => hrecv _ _ (recvTimeout_woken ticks h)
    have hfits : dur / 1000 < 2 ^ 32 := by
      by_contra hlong
      have h := hearly 0 (by omega)
      omega
    refine ⟨hfits, fun ticks h => ?_⟩
    have hon := hearly ticks h
    omega
  · rintro ⟨hfits, hround⟩
    refine ⟨neverEarly_timedLoop (fun r h => ?_) hfits hround, neverEarly_timedLoop (fun r h => ?_) hfits hround⟩
    · unfold recvLook at h
      split at h
      · cases h
      · split at h <;> cases h
    · unfold sendLook at h
      split at h
      · cases h
      · split at h <;> cases h

/-- **Two hours are over after 72 minutes**, when the largest timeout has run out. -/
theorem recv_timeout_two_hours :
    recvTimeout 1000 (7200 * 10 ^ 9) [({} : Round Nat), {}] = some (.empty, 4294967295 * 1000) ∧
      ¬ NeverEarly (7200 * 10 ^ 9) .empty (@recvTimeout Nat 1000 (7200 * 10 ^ 9)) := by
  have hrun : recvTimeout 1000 (7200 * 10 ^ 9) [({} : Round Nat), {}] = some (.empty, 4294967295 * 1000) := by decide
  exact ⟨hrun, fun h => absurd (h _ _ hrun) (by decide)⟩

end TailscaleVita.Chan
