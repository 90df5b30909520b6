import TailscaleVita.CtlNoise
import TailscaleVita.Run
/-!
# CtlAsync — the async adapter over the Noise stream (`ts-control/src/async_io.rs`)

The pump thread moves bytes between the Noise stream and two buffers; the owner of the `AsyncNoiseStream` polls the
buffers and leaves a waker when it has to wait. A step is one access to a buffer, a waker, the flag `closed` or the
stream. `accepted`, `written` and `unwritten` keep, for the theorems only, what `poll_write` took, what a `write_all`
that returned `Ok` was given, and what was taken out of `tx_buf` beyond that.
-/
namespace TailscaleVita.AsyncIo

open Function List

open Noise (IoError)

inductive Dir where
  | rx
  | tx
deriving DecidableEq

inductive Pump where
  | start
  | top
  | drain
  | write (chunk : Bytes)
  | flush
  | drained
  | read
  | got (bytes : Bytes)
  | pushed
  | failed (e : IoError)
  | close
  | failWake (d : Dir)
  | exited
deriving DecidableEq

inductive Owner where
  | idle
  | readDrain (room waker : Nat)
  | readClosed (room waker : Nat)
  | readErr
  | readStore (room waker : Nat)
  | readAgain (room : Nat)
  | writeClosed (bytes : Bytes)
  | writeErr
  | writeExtend (bytes : Bytes)
  | flushClosed (waker : Nat)
  | flushErr
  | flushTest (waker : Nat)
  | flushStore (waker : Nat)
  | flushAgain
  | flushReady
  | pending (d : Dir)
  | closeStore (join : Bool)
  | closeWake (d : Dir) (join : Bool)
  | closeJoin
deriving DecidableEq

inductive Returned where
  | read (r : Except IoError Bytes)
  | wrote (r : Except IoError Nat)
  | flushed (r : Except IoError Unit)
  | pending (d : Dir)
  | closed

structure State where
  rxBuf : Bytes := []
  txBuf : Bytes := []
  waker : Dir → Option Nat := fun _ => none
  closed : Bool := false
  err : Option IoError := none
  pump : Pump := .start
  owner : Owner := .idle
  woken : List Nat := []
  returned : List Returned := []
  pending : Dir → Bool := fun _ => false
  accepted : Bytes := []
  written : Bytes := []
  unwritten : Bytes := []
  flushes : List (Bytes × Bytes) := []

def txDrainMax : Nat := 16 * 1024

structure PumpIo where
  error : Option IoError := none
  data : Bytes := []

inductive OwnerCall where
  | pollRead (room waker : Nat)
  | pollWrite (bytes : Bytes)
  | pollFlush (waker : Nat)
  | pollShutdown
  | shutdown

namespace State

def wake (s : State) (d : Dir) : State :=
  { s with waker := update s.waker d none, woken := s.woken ++ (s.waker d).toList }

def pumpStep (s : State) (io : PumpIo) : State :=
  match s.pump with
  | .start =>
    match io.error with
    | some e => { s with pump := .failed e }
    | none => { s with pump := .top }
  | .top => if s.closed then { s with pump := .exited } else { s with pump := .drain }
  | .drain =>
    let chunk := s.txBuf.take txDrainMax
    { s with
      txBuf := s.txBuf.drop txDrainMax
      unwritten := chunk
      pump := if chunk = [] then .read else .write chunk }
  | .write chunk =>
    match io.error with
    | some e => { s with pump := .failed e }
    | none => { s with pump := .flush, written := s.written ++ chunk, unwritten := [] }
  | .flush =>
    match io.error with
    | some e => { s with pump := .failed e }
    | none => { s with pump := .drained }
  | .drained => { s.wake .tx with pump := .read }
  | .read =>
    match io.error with
    | some .timedOut => { s with pump := .top }
    | some e => { s with pump := .failed e }
    | none =>
      if io.data = [] then { s with pump := .failed (.unexpectedEof "noise eof".toList) }
      else { s with pump := .got (io.data.take 8192) }
  | .got bytes => { s with rxBuf := s.rxBuf ++ bytes, pump := .pushed }
  | .pushed => { s.wake .rx with pump := .top }
  | .failed e => { s with err := some (s.err.getD e), pump := .close }
  | .close => { s with closed := true, pump := .failWake .rx }
  | .failWake .rx => { s.wake .rx with pump := .failWake .tx }
  | .failWake .tx => { s.wake .tx with pump := .exited }
  | .exited => s

def errLocked (s : State) : Bool :=
  match s.pump with
  | .close => true
  | .failWake _ => true
  | _ => false

def ret (s : State) (r : Returned) : State := { s with owner := .idle, returned := s.returned ++ [r] }

def give (s : State) (room : Nat) : State := { s.ret (.read (.ok (s.rxBuf.take room))) with rxBuf := s.rxBuf.drop room }

def noiseClosed : IoError := .other "noise closed".toList

def ownerStep (s : State) : State :=
  match s.owner with
  | .idle => s
  | .readDrain room waker => if s.rxBuf ≠ [] then s.give room else { s with owner := .readClosed room waker }
  | .readClosed room waker =>
    if s.closed then { s with owner := .readErr } else { s with owner := .readStore room waker }
  | .readErr =>
    if s.errLocked then s
    else
      match s.err with
      | none => s.ret (.read (.ok []))
      | some (.unexpectedEof _) => s.ret (.read (.ok []))
      | some e => s.ret (.read (.error e))
  | .readStore room waker =>
    { s with waker := update s.waker .rx (some waker), owner := .readAgain room }
  | .readAgain room => if s.rxBuf ≠ [] then s.give room else { s with owner := .pending .rx }
  | .writeClosed bytes => if s.closed then { s with owner := .writeErr } else { s with owner := .writeExtend bytes }
  | .writeErr => if s.errLocked then s else s.ret (.wrote (.error (s.err.getD noiseClosed)))
  | .writeExtend bytes =>
    { s.ret (.wrote (.ok bytes.length)) with txBuf := s.txBuf ++ bytes, accepted := s.accepted ++ bytes }
  | .flushClosed waker => if s.closed then { s with owner := .flushErr } else { s with owner := .flushTest waker }
  | .flushErr => if s.errLocked then s else s.ret (.flushed (.error (s.err.getD noiseClosed)))
  | .flushTest waker =>
    if s.txBuf = [] then { s with owner := .flushReady } else { s with owner := .flushStore waker }
  | .flushStore waker =>
    { s with waker := update s.waker .tx (some waker), owner := .flushAgain }
  | .flushAgain => if s.txBuf = [] then { s with owner := .flushReady } else { s with owner := .pending .tx }
  | .flushReady => { s.ret (.flushed (.ok ())) with flushes := s.flushes ++ [(s.accepted, s.written)] }
  | .pending d => { s.ret (.pending d) with pending := update s.pending d true }
  | .closeStore join => { s with closed := true, owner := .closeWake .rx join }
  | .closeWake .rx join => { s.wake .rx with owner := .closeWake .tx join }
  | .closeWake .tx true => { s.wake .tx with owner := .closeJoin }
  | .closeWake .tx false => (s.wake .tx).ret .closed
  | .closeJoin => if s.pump = .exited then s.ret .closed else s

def begin (s : State) : OwnerCall → State
  | .pollRead room waker =>
    { s with owner := .readDrain room waker, pending := update s.pending .rx false }
  | .pollWrite bytes => { s with owner := .writeClosed bytes }
  | .pollFlush waker => { s with owner := .flushClosed waker, pending := update s.pending .tx false }
  | .pollShutdown => { s with owner := .closeStore false }
  | .shutdown => { s with owner := .closeStore true }

end State

inductive Step where
  | pump (io : PumpIo)
  | call (c : OwnerCall)
  | owner

def step (s : State) : Step → State
  | .pump io => s.pumpStep io
  | .call c => if s.owner = .idle then s.begin c else s
  | .owner => s.ownerStep

/-! ## Close wakeups -/

def Pump.wakes : Dir → Pump → Bool
  | .rx, .got _ => true
  | .rx, .pushed => true
  | .tx, .write _ => true
  | .tx, .flush => true
  | .tx, .drained => true
  | _, .failed _ => true
  | _, .close => true
  | _, .failWake .rx => true
  | .tx, .failWake .tx => true
  | _, _ => false

def Owner.wakes : Dir → Owner → Bool
  | _, .closeStore _ => true
  | _, .closeWake .rx _ => true
  | .tx, .closeWake .tx _ => true
  | _, _ => false

/-- A close wakeup is lost: the stream is closed, a poll has returned `Pending` and its waker is where it left it,
and nobody is on the way to wake it. -/
def Lost (d : Dir) (s : State) : Prop :=
  s.closed = true ∧ s.pending d = true ∧ s.waker d ≠ none ∧ s.pump.wakes d = false ∧ s.owner.wakes d = false

def State.waits (s : State) : Dir → Prop
  | .rx => s.rxBuf = []
  | .tx => s.txBuf ≠ []

def Owner.between : Dir → Owner → Bool
  | .rx, .readStore _ _ => true
  | .tx, .flushTest _ => true
  | .tx, .flushStore _ => true
  | _, _ => false

/-- The wakeup of a `fail` does not come between a poll's look at `closed` and its store of the waker, unless the poll
will find something to return. -/
def WakesInTime (s : State) : Step → Prop
  | .pump _ => ∀ d, s.pump = .failWake d → s.owner.between d = true → ¬ s.waits d
  | _ => True

def Owner.polls : Dir → Owner → Bool
  | .rx, .readDrain _ _ => true
  | .rx, .readClosed _ _ => true
  | .rx, .readErr => true
  | .rx, .readStore _ _ => true
  | .rx, .readAgain _ => true
  | .tx, .flushClosed _ => true
  | .tx, .flushErr => true
  | .tx, .flushTest _ => true
  | .tx, .flushStore _ => true
  | .tx, .flushAgain => true
  | .tx, .flushReady => true
  | d, .pending d' => decide (d' = d)
  | _, _ => false

def Polling (s : State) : Prop := ∀ d, s.owner.polls d = true → s.pending d = false

structure Keeps (d : Dir) (s s' : State) : Prop where
  pending : s'.pending d = true → s.pending d = true
  waker : s'.pending d = true → s'.waker d ≠ none → s.waker d ≠ none
  closed : s'.closed = true → s.closed = true ∨ s'.owner.wakes d = true ∨ s'.pump.wakes d = true
  wakes : s'.pump.wakes d = false → s'.owner.wakes d = false → s'.waker d ≠ none →
    s.pump.wakes d = false ∧ s.owner.wakes d = false

theorem Keeps.not_lost {d : Dir} {s s' : State} (h : Keeps d s s') (hs : ¬ Lost d s) : ¬ Lost d s' := by
  rintro ⟨hclosed, hpending, hwaker, hpump, howner⟩
  obtain ⟨hpump', howner'⟩ := h.wakes hpump howner hwaker
  refine hs ⟨?_, h.pending hpending, h.waker hpending hwaker, hpump', howner'⟩
  rcases h.closed hclosed with hc | hc | hc
  · exact hc
  · rw [howner] at hc
    cases hc
  · rw [hpump] at hc
    cases hc

variable {d : Dir} {s s' : State}

theorem Keeps.refl (d : Dir) (s : State) : Keeps d s s := ⟨id, fun _ => id, .inl, fun hpump howner _ => ⟨hpump, howner⟩⟩

variable {flushes : List (Bytes × Bytes)} {o o₀ : Owner} {p p₀ : Pump} {pending : Dir → Bool} {returned : List Returned}
  {rx : Bytes} {waker : Dir → Option Nat} {woken : List Nat}

theorem keeps_of_pump (hp : s.pump = p₀) {tx written unwritten : Bytes} {err : Option IoError}
    (h : p.wakes d = false → p₀.wakes d = false := by cases d <;> simp [Pump.wakes]) :
    Keeps d s { s with rxBuf := rx, txBuf := tx, err := err, pump := p, written := written, unwritten := unwritten } :=
  ⟨id, fun _ => id, .inl, fun hpump howner _ => ⟨hp ▸ h hpump, howner⟩⟩

theorem keeps_of_owner (ho : s.owner = o₀) {tx accepted : Bytes}
    (hp : pending d = true → s.pending d = true := by exact id) (h : o₀.wakes d = false := by cases d <;> rfl) :
    Keeps d s { s with
      rxBuf := rx, txBuf := tx, owner := o, returned := returned, pending := pending, accepted := accepted,
      flushes := flushes } :=
  ⟨hp, fun _ => id, .inl, fun hpump _ _ => ⟨hpump, ho ▸ h⟩⟩

theorem keeps_of_wake {d' : Dir} (hw : s'.waker = update s.waker d' none) (hp : s'.pending = s.pending)
    (hc : s'.closed = s.closed) (h : d ≠ d' → s'.pump.wakes d = false → s'.owner.wakes d = false →
      s.pump.wakes d = false ∧ s.owner.wakes d = false) : Keeps d s s' where
  pending := by rw [hp]; exact id
  waker _ hne := by
    rw [hw] at hne
    by_cases hd : d = d'
    · rw [hd, update_self] at hne
      exact absurd rfl hne
    · rwa [update_of_ne hd] at hne
  closed := by rw [hc]; exact .inl
  wakes hpump howner hne := by
    by_cases hd : d = d'
    · rw [hw, hd, update_self] at hne
      exact absurd rfl hne
    · exact h hd hpump howner

theorem keeps_of_pump_wake {d' : Dir} (hp : s.pump = p₀)
    (h : d ≠ d' → p.wakes d = false → p₀.wakes d = false := by cases d <;> simp [Pump.wakes]) :
    Keeps d s { s.wake d' with pump := p } :=
  keeps_of_wake rfl rfl rfl (fun hd hpump howner => ⟨hp ▸ h hd hpump, howner⟩)

theorem keeps_of_owner_wake {d' : Dir} (ho : s.owner = o₀)
    (h : d ≠ d' → o.wakes d = false → o₀.wakes d = false := by cases d <;> simp [Owner.wakes]) :
    Keeps d s { s.wake d' with owner := o, returned := returned } :=
  keeps_of_wake rfl rfl rfl (fun hd hpump howner => ⟨hpump, ho ▸ h hd howner⟩)

theorem pumpStep_keeps (d : Dir) (s : State) (io : PumpIo) : Keeps d s (s.pumpStep io) := by
  unfold State.pumpStep
  split <;> rename_i hpump
  · split <;> exact keeps_of_pump hpump
  · split <;> exact keeps_of_pump hpump
  · exact keeps_of_pump hpump
  · split <;> exact keeps_of_pump hpump
  · split <;> exact keeps_of_pump hpump
  · exact keeps_of_pump_wake hpump
  · split
    · exact keeps_of_pump hpump
    · exact keeps_of_pump hpump
    · split <;> exact keeps_of_pump hpump
  · exact keeps_of_pump hpump
  · exact keeps_of_pump_wake hpump
  · exact keeps_of_pump hpump
  · -- the flag is set, and both directions are still to be woken
    refine ⟨id, fun _ => id, fun _ => .inr (.inr ?_), fun hno _ _ => ?_⟩
    · cases d <;> rfl
    · cases d <;> cases hno
  · exact keeps_of_pump_wake hpump
  · exact keeps_of_pump_wake hpump
  · exact Keeps.refl d s

theorem begin_keeps (d : Dir) (s : State) (hidle : s.owner = .idle) (c : OwnerCall) : Keeps d s (s.begin c) := by
  have hpending : ∀ d', update s.pending d' false d = true → s.pending d = true := by
    intro d' h
    by_cases hd : d = d'
    · rw [hd, update_self] at h
      cases h
    · rwa [update_of_ne hd] at h
  cases c with
  | pollRead room waker => exact keeps_of_owner hidle (hpending .rx)
  | pollFlush waker => exact keeps_of_owner hidle (hpending .tx)
  | _ => exact keeps_of_owner hidle

theorem ownerStep_keeps (d : Dir) (hpoll : Polling s) (hret : s.owner ≠ .pending d) : Keeps d s s.ownerStep := by
  have hstore : ∀ {d' : Dir} {w : Nat}, s.owner.polls d' = true → s.owner.wakes d = false → ∀ s' : State,
      s'.waker = update s.waker d' (some w) → s'.pending = s.pending → s'.closed = s.closed →
        s'.pump = s.pump → Keeps d s s' := by
    intro d' w hd' hno s' hw hp hc hpump
    have hne : s'.pending d = true → d ≠ d' := by
      rintro hpending rfl
      rw [hp, hpoll d hd'] at hpending
      cases hpending
    refine ⟨by rw [hp]; exact id, fun hpending => ?_, by rw [hc]; exact .inl, fun hpump' _ _ => ⟨hpump ▸ hpump', hno⟩⟩
    rw [hw, update_of_ne (hne hpending)]
    exact id
  unfold State.ownerStep
  split <;> rename_i howner
  · exact Keeps.refl d s
  · split <;> exact keeps_of_owner howner
  · split <;> exact keeps_of_owner howner
  · split
    · exact Keeps.refl d s
    · split <;> exact keeps_of_owner howner
  · exact hstore (by rw [howner]; rfl) (by rw [howner]; cases d <;> rfl) _ rfl rfl rfl rfl
  · split <;> exact keeps_of_owner howner
  · split <;> exact keeps_of_owner howner
  · split
    · exact Keeps.refl d s
    · exact keeps_of_owner howner
  · exact keeps_of_owner howner
  · split <;> exact keeps_of_owner howner
  · split
    · exact Keeps.refl d s
    · exact keeps_of_owner howner
  · split <;> exact keeps_of_owner howner
  · exact hstore (by rw [howner]; rfl) (by rw [howner]; cases d <;> rfl) _ rfl rfl rfl rfl
  · split <;> exact keeps_of_owner howner
  · exact keeps_of_owner howner
  next d' =>
    -- the `Pending` of the other direction
    refine keeps_of_owner howner (fun h => ?_)
    rwa [update_of_ne (fun hd : d = d' => hret (hd ▸ howner))] at h
  · refine ⟨id, fun _ => id, fun _ => .inr (.inl ?_), fun _ hno _ => ?_⟩
    · cases d <;> rfl
    · cases d <;> cases hno
  · exact keeps_of_owner_wake howner
  · exact keeps_of_owner_wake howner
  · exact keeps_of_owner_wake howner
  · split
    · exact keeps_of_owner howner
    · exact Keeps.refl d s

theorem pumpStep_owner (s : State) (io : PumpIo) :
    (s.pumpStep io).owner = s.owner ∧ (s.pumpStep io).pending = s.pending := by
  unfold State.pumpStep
  repeat' split
  all_goals exact ⟨rfl, rfl⟩

theorem ownerStep_polls (d : Dir) (s : State) : s.ownerStep.owner.polls d = true → s.owner.polls d = true := by
  unfold State.ownerStep
  split <;> rename_i howner <;> rw [howner] <;> (repeat' split) <;> cases d <;>
    simp_all [State.ret, State.give, State.wake, Owner.polls]

theorem ownerStep_pending (d : Dir) (s : State) (hret : s.owner ≠ .pending d) :
    s.ownerStep.pending d = s.pending d := by
  unfold State.ownerStep
  split <;> (repeat' split) <;> try rfl
  rename_i d' howner
  exact update_of_ne (fun h : d = d' => hret (h ▸ howner)) _ _

theorem polling_step (h : Polling s) (e : Step) : Polling (step s e) := by
  intro d hd
  cases e with
  | pump io =>
    obtain ⟨howner, hpending⟩ := pumpStep_owner s io
    change (s.pumpStep io).owner.polls d = true at hd
    change (s.pumpStep io).pending d = false
    rw [howner] at hd
    rw [hpending]
    exact h d hd
  | call c =>
    rw [step] at hd ⊢
    split at hd
    next hidle =>
      rw [if_pos hidle]
      cases c with
      | pollRead room waker => cases d <;> first | rfl | cases hd
      | pollWrite bytes => cases d <;> cases hd
      | pollFlush waker => cases d <;> first | rfl | cases hd
      | pollShutdown | shutdown => cases d <;> cases hd
    next hbusy =>
      rw [if_neg hbusy]
      exact h d hd
  | owner =>
    change s.ownerStep.owner.polls d = true at hd
    change s.ownerStep.pending d = false
    have hret : s.owner ≠ .pending d := by
      intro howner
      unfold State.ownerStep at hd
      rw [howner] at hd
      cases d <;> cases hd
    rw [ownerStep_pending d s hret]
    exact h d (ownerStep_polls d s hd)

def Owner.ahead : Dir → Owner → Option Nat
  | .rx, .readStore _ _ => some 3
  | .rx, .readAgain _ => some 2
  | .tx, .flushTest _ => some 4
  | .tx, .flushStore _ => some 3
  | .tx, .flushAgain => some 2
  | d, .pending d' => if d' = d then some 1 else none
  | _, _ => none

def Doomed (n : Nat) (d : Dir) (s : State) : Prop :=
  s.closed = true ∧ s.pump.wakes d = false ∧ s.owner.ahead d = some n ∧ (n ≤ 2 → s.waker d ≠ none) ∧
    (2 ≤ n → s.waits d)

theorem between_iff {o : Owner} : o.between d = true ↔ ∃ n, 3 ≤ n ∧ o.ahead d = some n := by
  cases o <;> cases d <;> simp [Owner.between, Owner.ahead]

theorem not_doomed_zero : ¬ Doomed 0 d s := by
  rintro ⟨-, -, hahead, -⟩
  generalize s.owner = o at hahead
  cases o <;> cases d <;> simp [Owner.ahead] at hahead

theorem doomed_ownerStep (n : Nat) : Doomed (n + 1) d s.ownerStep ↔ Doomed (n + 2) d s := by
  unfold Doomed
  cases howner : s.owner <;> cases d <;>
    simp only [State.ownerStep, howner] <;> (repeat' split) <;>
    simp_all [Owner.ahead, State.ret, State.give, State.wake, State.waits]

theorem lost_ownerStep (howner : s.owner = .pending d) : Lost d s.ownerStep ↔ Doomed 1 d s := by
  have hafter : s.ownerStep = { s.ret (.pending d) with pending := update s.pending d true } := by
    unfold State.ownerStep
    rw [howner]
  rw [hafter]
  unfold Lost Doomed
  rw [howner]
  cases d <;> simp [State.ret, Owner.ahead, Owner.wakes, and_comm]

theorem lost_of_doomed : ∀ (n : Nat) (s : State), Doomed n d s → ∃ k, Lost d (run step s (List.replicate k .owner))
  | 0, _, h => absurd h not_doomed_zero
  | 1, s, h => by
    have howner : s.owner = .pending d := by
      have hahead := h.2.2.1
      generalize s.owner = o at hahead ⊢
      cases o <;> cases d <;> simp_all [Owner.ahead]
    exact ⟨1, (lost_ownerStep howner).2 h⟩
  | n + 2, s, h => by
    obtain ⟨k, hk⟩ := lost_of_doomed (n + 1) s.ownerStep ((doomed_ownerStep n).2 h)
    exact ⟨k + 1, hk⟩

def Pump.closing : Pump → Bool
  | .failWake _ => true
  | .exited => true
  | _ => false

structure Closing (s : State) : Prop where
  closed : ∀ d, s.closed = true → s.owner.ahead d ≠ none → s.pump.closing = true
  failing : ∀ d, s.pump = .failWake d → s.closed = true

theorem ownerStep_closed (h : s.closed = true) : s.ownerStep.closed = true := by
  unfold State.ownerStep
  (repeat' split) <;> first | exact h | rfl

theorem ownerStep_ahead (hclosed : s.ownerStep.closed = true) (h : s.ownerStep.owner.ahead d ≠ none) :
    s.closed = true ∧ s.owner.ahead d ≠ none := by
  revert hclosed h
  cases howner : s.owner <;> cases d <;> simp only [State.ownerStep, howner] <;> (repeat' split) <;>
    simp_all [Owner.ahead, State.ret, State.give, State.wake]

theorem closing_step (h : Closing s) (e : Step) : Closing (step s e) := by
  obtain ⟨hclosed, hfailing⟩ := h
  cases e with
  | pump io =>
    show Closing (s.pumpStep io)
    unfold State.pumpStep
    cases hpump : s.pump with
    | drain =>
      refine ⟨fun d hc ha => ?_, fun d hd => ?_⟩
      · have hclosing := hclosed d hc ha
        rw [hpump] at hclosing
        cases hclosing
      · change (if _ then Pump.read else .write _) = .failWake d at hd
        split at hd <;> cases hd
    | _ => (repeat' split) <;> constructor <;> simp_all [Pump.closing, State.wake]
  | call c =>
    show Closing (if s.owner = .idle then s.begin c else s)
    split
    · refine ⟨fun d _ hahead => absurd ?_ hahead, by cases c <;> exact hfailing⟩
      cases c <;> cases d <;> rfl
    · exact ⟨hclosed, hfailing⟩
  | owner =>
    show Closing s.ownerStep
    have hpump : s.ownerStep.pump = s.pump := by
      unfold State.ownerStep
      (repeat' split) <;> rfl
    refine ⟨fun d hc ha => ?_, fun d hd => ownerStep_closed (hfailing d (hpump ▸ hd))⟩
    obtain ⟨hc', ha'⟩ := ownerStep_ahead hc ha
    rw [hpump]
    exact hclosed d hc' ha'

theorem pumpStep_closed (io : PumpIo) (hpump : s.pump ≠ .close) : (s.pumpStep io).closed = s.closed := by
  unfold State.pumpStep
  (repeat' split) <;> first | rfl | contradiction

theorem doomed_wake (hclosed : s.closed = true) (hp : p.wakes d = false) :
    (∃ n, Doomed n d { s.wake d with pump := p }) ↔ s.owner.between d = true ∧ s.waits d := by
  rw [between_iff]
  constructor
  · rintro ⟨n, -, -, hahead, hwaker, hwaits⟩
    have hn : 3 ≤ n := by
      by_contra hless
      exact hwaker (by omega) (show (s.wake d).waker d = none from update_self _ _ _)
    exact ⟨⟨n, hn, hahead⟩, hwaits (by omega)⟩
  · rintro ⟨⟨n, hn, hahead⟩, hwaits⟩
    exact ⟨n, hclosed, hp, hahead, fun hle => absurd hn (by omega), fun _ => hwaits⟩

theorem doomed_pumpStep (h : Closing s) (hno : ∀ n, ¬ Doomed n d s) (io : PumpIo) :
    (∃ n, Doomed n d (s.pumpStep io)) ↔ s.pump = .failWake d ∧ s.owner.between d = true ∧ s.waits d := by
  by_cases hclosing : s.pump.closing = true
  · cases hpump : s.pump with
    | failWake d' =>
      have hclosed := h.failing d' hpump
      cases d' <;> cases d <;> simp only [State.pumpStep, hpump]
      · exact (doomed_wake hclosed rfl).trans (and_iff_right trivial).symm
      · exact iff_of_false (fun ⟨n, hn⟩ => by cases hn.2.1) (fun hw => by cases hw.1)
      · exact iff_of_false (fun ⟨n, hn⟩ => hno n ⟨hclosed, by rw [hpump]; rfl, hn.2.2⟩) (fun hw => by cases hw.1)
      · exact (doomed_wake hclosed rfl).trans (and_iff_right trivial).symm
    | exited =>
      refine iff_of_false (fun ⟨n, hn⟩ => hno n ?_) (fun hw => by cases hw.1)
      simp only [State.pumpStep, hpump] at hn
      exact hn
    | _ =>
      rw [hpump] at hclosing
      cases hclosing
  · refine iff_of_false (fun ⟨n, hn⟩ => ?_) (fun hw => hclosing (by rw [hw.1]; rfl))
    by_cases hpump : s.pump = .close
    · simp only [State.pumpStep, hpump] at hn
      cases d <;> cases hn.2.1
    · rw [Doomed, pumpStep_closed io hpump, (pumpStep_owner s io).1] at hn
      exact hclosing (h.closed d hn.1 (by rw [hn.2.2.1]; exact Option.some_ne_none n))

/-- No wakeup is lost, and none is going to be by what the owner does alone. -/
def Spared (s : State) : Prop := ∀ d, ¬ Lost d s ∧ ∀ n, ¬ Doomed n d s

theorem spared_owner (hpoll : Polling s) (h : Spared s) : Spared (step s .owner) := by
  refine fun d => ⟨?_, fun n hn => ?_⟩
  · by_cases howner : s.owner = .pending d
    · exact fun hlost => (h d).2 1 ((lost_ownerStep howner).1 hlost)
    · exact (ownerStep_keeps d hpoll howner).not_lost (h d).1
  · cases n with
    | zero => exact not_doomed_zero hn
    | succ n => exact (h d).2 (n + 2) ((doomed_ownerStep n).1 hn)

theorem spared_step (hpoll : Polling s) (hclosing : Closing s) (h : Spared s) :
    ∀ e, Spared (step s e) ↔ WakesInTime s e
  | .owner => iff_of_true (spared_owner hpoll h) trivial
  | .call c => by
    refine iff_of_true (fun d => ?_) trivial
    show ¬ Lost d (if s.owner = .idle then s.begin c else s) ∧
      ∀ n, ¬ Doomed n d (if s.owner = .idle then s.begin c else s)
    split
    next hidle =>
      refine ⟨(begin_keeps d s hidle c).not_lost (h d).1, fun n hn => ?_⟩
      have hahead := hn.2.2.1
      cases c <;> cases d <;> cases hahead
    · exact h d
  | .pump io => by
    have hdoomed := fun d => @doomed_pumpStep d s hclosing (h d).2 io
    refine ⟨fun hspared d hpump hbetween hwaits => ?_, fun hin d => ?_⟩
    · obtain ⟨n, hn⟩ := (hdoomed d).2 ⟨hpump, hbetween, hwaits⟩
      exact (hspared d).2 n hn
    · refine ⟨(pumpStep_keeps d s io).not_lost (h d).1, fun n hn => ?_⟩
      obtain ⟨hpump, hbetween, hwaits⟩ := (hdoomed d).1 ⟨n, hn⟩
      exact hin d hpump hbetween hwaits

/-- **When no close wakeup is lost**: in every interleaving of the pump with the owner's calls, and however long the
owner then goes on alone, no poll is left `Pending` on a closed stream with its waker stored and nobody on the way to
wake it, exactly when no wakeup of a failing pump comes between a poll's look at `closed` and its store of the waker. -/
theorem no_lost_close_wakeup_iff (steps : List Step) :
    (∀ steps₁, steps₁ <+: steps → ∀ n d, ¬ Lost d (run step {} (steps₁ ++ List.replicate n .owner))) ↔
      Along step WakesInTime {} steps := by
  have hspared : Spared {} := fun d => ⟨fun h => Bool.false_ne_true h.1, fun n h => Bool.false_ne_true h.1⟩
  have hinv : Polling {} ∧ Closing {} := ⟨fun _ _ => rfl, ⟨fun _ h => absurd h Bool.false_ne_true, nofun⟩⟩
  have hkeeps : ∀ s e, Polling s ∧ Closing s → Polling (step s e) ∧ Closing (step s e) := fun s e h =>
    ⟨polling_step h.1 e, closing_step h.2 e⟩
  rw [← run_always_iff_of_inv (fun s => Polling s ∧ Closing s) (fun s e h _ => hkeeps s e h)
    (fun s e hi hs => spared_step hi.1 hi.2 hs e) steps {} hinv hspared]
  refine forall_congr' fun steps₁ => forall_congr' fun _ => ⟨fun h d => ⟨?_, fun n hn => ?_⟩, fun h n d => ?_⟩
  · have hnow := h 0 d
    rwa [List.replicate_zero, append_nil] at hnow
  · obtain ⟨k, hk⟩ := lost_of_doomed n _ hn
    rw [← run_append] at hk
    exact h k d hk
  · -- by itself the owner loses nothing
    have hreached := run_keeps (fun s => Polling s ∧ Closing s) hkeeps steps₁ {} hinv
    have hend := run_inv (fun s => Polling s ∧ Spared s)
      (fun s e hs (he : e = .owner) => he ▸ ⟨polling_step hs.1 .owner, spared_owner hs.1 hs.2⟩)
      (List.replicate n .owner) _ ⟨hreached.1, h⟩ (along_of_forall step _ _ (fun _ _ he => eq_of_mem_replicate he))
    rw [run_append]
    exact (hend.2 d).1

def lateReader : List Step :=
  List.flatten [List.replicate 3 (.pump {}), [.call (.pollRead 100 7), .owner, .owner],
    List.replicate 5 (.pump {}), [.owner, .owner, .owner]]

/-- **A reader sleeps for ever.** -/
theorem read_misses_close : Lost .rx (run step {} lateReader) := by
  refine ⟨?_, ?_, ?_, ?_, ?_⟩ <;> decide +kernel

/-! ## What is flushed is written -/

def Pump.owes : Pump → Bool
  | .write _ => true
  | .failed _ => true
  | .close => true
  | .failWake _ => true
  | .exited => true
  | _ => false

structure Books (s : State) : Prop where
  sum : s.accepted = s.written ++ (s.unwritten ++ s.txBuf)
  chunk : ∀ c, s.pump = .write c → s.unwritten = c
  clear : s.pump.owes = false → s.unwritten = []
  failing : s.errLocked = true → s.err ≠ none
  failed : ∀ d, s.pump = .failWake d → s.closed = true
  gone : s.pump = .exited → s.closed = true ∧ (s.err = none → s.unwritten = [])
  ready : s.owner = .flushReady → s.txBuf = []
  sending : ∀ bytes, s.owner = .writeExtend bytes → s.closed = true → s.err ≠ none

theorem books_start : Books {} :=
  ⟨rfl, nofun, fun _ => rfl, nofun, nofun, nofun, fun _ => rfl, nofun⟩

def Pump.loops : Pump → Bool
  | .write _ => false
  | .close => false
  | .failWake _ => false
  | .exited => false
  | _ => true

theorem Books.loops (h : Books s) (hp : s.pump = p₀) (hno : p₀.owes = false := by rfl)
    (hto : p.loops = true := by rfl) :
    Books { s with rxBuf := rx, waker := waker, pump := p, woken := woken } where
  sum := h.sum
  chunk c hc := by cases hc; cases hto
  clear _ := h.clear (hp ▸ hno)
  failing hl := by cases p <;> simp_all [Pump.loops, State.errLocked]
  failed d hd := by cases hd; cases hto
  gone he := by cases he; cases hto
  ready := h.ready
  sending := h.sending

theorem Books.drains (h : Books s) (hno : s.pump.owes = false)
    (hp : p = .read ∧ s.txBuf.take txDrainMax = [] ∨ p = .write (s.txBuf.take txDrainMax)) :
    Books { s with txBuf := s.txBuf.drop txDrainMax, unwritten := s.txBuf.take txDrainMax, pump := p } where
  sum := by
    rw [take_append_drop, h.sum, h.clear hno, nil_append]
  chunk c hc := by
    obtain ⟨rfl, -⟩ | rfl := hp
    · cases hc
    · exact Pump.write.inj hc
  clear hclear := by
    obtain ⟨-, hempty⟩ | rfl := hp
    · exact hempty
    · cases hclear
  failing hl := by obtain ⟨rfl, -⟩ | rfl := hp <;> cases hl
  failed d hd := by obtain ⟨rfl, -⟩ | rfl := hp <;> cases hd
  gone he := by obtain ⟨rfl, -⟩ | rfl := hp <;> cases he
  ready ho := by
    rw [h.ready ho]
    exact drop_nil
  sending := h.sending

theorem books_pumpStep (h : Books s) (io : PumpIo) : Books (s.pumpStep io) := by
  unfold State.pumpStep
  split
  next hpump => split <;> exact h.loops hpump
  next hpump =>
    split
    next hclosed =>
      have hclear := h.clear (by rw [hpump]; rfl)
      exact ⟨h.sum, nofun, fun _ => hclear, nofun, nofun,
        fun _ => ⟨hclosed, fun _ => hclear⟩, h.ready, h.sending⟩
    · exact h.loops hpump
  next hpump =>
    refine h.drains (by rw [hpump]; rfl) ?_
    split
    next hempty => exact .inl ⟨rfl, hempty⟩
    · exact .inr rfl
  · -- a chunk is written, or it is not
    rename_i chunk hpump
    have hchunk := h.chunk chunk hpump
    split
    · exact ⟨h.sum, nofun, nofun, nofun,
        nofun, nofun, h.ready, h.sending⟩
    · refine ⟨?_, nofun, fun _ => rfl, nofun, nofun,
        nofun, h.ready, h.sending⟩
      rw [nil_append, append_assoc, ← hchunk]
      exact h.sum
  next hpump => split <;> exact h.loops hpump
  next hpump => exact h.loops hpump
  next hpump =>
    split
    · exact h.loops hpump
    · exact h.loops hpump
    · split <;> exact h.loops hpump
  next bytes hpump => exact h.loops hpump
  next hpump => exact h.loops hpump
  · exact ⟨h.sum, nofun, nofun, fun _ => Option.some_ne_none _,
      nofun, nofun, h.ready, fun _ _ _ => Option.some_ne_none _⟩
  next hpump =>
    have herr := h.failing (by rw [State.errLocked, hpump])
    exact ⟨h.sum, nofun, nofun, fun _ => herr, fun _ _ => rfl,
      nofun, h.ready, fun _ _ _ => herr⟩
  next hpump =>
    have herr := h.failing (by rw [State.errLocked, hpump])
    exact ⟨h.sum, nofun, nofun, fun _ => herr, fun _ _ => h.failed .rx hpump,
      nofun, h.ready, h.sending⟩
  next hpump =>
    have herr := h.failing (by rw [State.errLocked, hpump])
    exact ⟨h.sum, nofun, nofun, nofun,
      nofun, fun _ => ⟨h.failed .tx hpump, fun hno => absurd hno herr⟩, h.ready, h.sending⟩
  · exact h

theorem Books.owned (h : Books s) {closed : Bool} (hclosed : s.closed = true → closed = true)
    (hready : o = .flushReady → s.txBuf = []) (hsending : ∀ bytes, o = .writeExtend bytes → closed = false) :
    Books { s with
      rxBuf := rx, waker := waker, closed := closed, owner := o, woken := woken, returned := returned,
      pending := pending, flushes := flushes } where
  sum := h.sum
  chunk := h.chunk
  clear := h.clear
  failing := h.failing
  failed d hd := hclosed (h.failed d hd)
  gone he := ⟨hclosed (h.gone he).1, (h.gone he).2⟩
  ready := hready
  sending bytes ho hc := absurd ((hsending bytes ho).symm.trans hc) Bool.false_ne_true

def Owner.settles : Owner → Bool
  | .flushReady => true
  | .writeExtend _ => true
  | _ => false

theorem Books.moves (h : Books s) (hto : o.settles = false := by rfl) :
    Books { s with
      rxBuf := rx, waker := waker, owner := o, woken := woken, returned := returned, pending := pending,
      flushes := flushes } :=
  h.owned id (fun ho => by cases ho; cases hto) (fun _ ho => by cases ho; cases hto)

theorem books_ownerStep (h : Books s) : Books s.ownerStep := by
  unfold State.ownerStep
  split
  · exact h
  · split <;> exact h.moves
  · split <;> exact h.moves
  · split
    · exact h
    · split <;> exact h.moves
  · exact h.moves
  · split <;> exact h.moves
  · split
    · exact h.moves
    next hclosed => exact h.owned id nofun (fun _ _ => Bool.eq_false_iff.2 hclosed)
  · split
    · exact h
    · exact h.moves
  next bytes howner =>
    refine ⟨?_, h.chunk, h.clear, h.failing, h.failed, h.gone, nofun, fun _ ho => by cases ho⟩
    change s.accepted ++ bytes = s.written ++ (s.unwritten ++ (s.txBuf ++ bytes))
    rw [h.sum, append_assoc, append_assoc]
  · split <;> exact h.moves
  · split
    · exact h
    · exact h.moves
  · split
    next hempty => exact h.owned id (fun _ => hempty) nofun
    · exact h.moves
  · exact h.moves
  · split
    next hempty => exact h.owned id (fun _ => hempty) nofun
    · exact h.moves
  · exact h.moves
  · exact h.moves
  · exact h.owned (fun _ => rfl) nofun nofun
  · exact h.moves
  · exact h.moves
  · exact h.moves
  · split
    · exact h.moves
    · exact h

theorem books_step (h : Books s) (e : Step) : Books (step s e) := by
  cases e with
  | pump io => exact books_pumpStep h io
  | call c =>
    rw [step]
    split
    · cases c with
      | pollRead room waker | pollWrite bytes | pollFlush waker | pollShutdown | shutdown => exact h.moves
    · exact h
  | owner => exact books_ownerStep h

/-- Flush means written, and a close discards nothing: what was accepted had been written at every `Ready(Ok)` of
`poll_flush`, and when the pump is gone from a stream that has not failed. -/
def Kept (s : State) : Prop :=
  (∀ p ∈ s.flushes, p.1 = p.2) ∧ (s.pump = .exited → s.err = none → s.written = s.accepted)

/-- The pump owes nothing when it counts: when `poll_flush` returns `Ready(Ok)`, it has no bytes that it took and
did not write; and when it sees that a stream that has not failed is closed, the buffer is empty. -/
def OwesNothing (s : State) : Step → Prop
  | .owner => s.owner = .flushReady → s.unwritten = []
  | .pump _ => s.pump = .top → s.closed = true → s.err = none → s.txBuf = []
  | .call _ => True

theorem pumpStep_flushes (s : State) (io : PumpIo) : (s.pumpStep io).flushes = s.flushes := by
  unfold State.pumpStep
  repeat' split
  all_goals rfl

theorem pumpStep_exited (h : Books s) (io : PumpIo) (hexit : (s.pumpStep io).pump = .exited) :
    s.pumpStep io = s ∨ s.pump = .top ∧ s.closed = true ∧ s.pumpStep io = { s with pump := .exited } ∨
      (s.pumpStep io).err ≠ none := by
  cases hpump : s.pump with
  | exited =>
    refine .inl ?_
    unfold State.pumpStep
    rw [hpump]
  | top =>
    by_cases hclosed : s.closed = true
    · refine .inr (.inl ⟨rfl, hclosed, ?_⟩)
      unfold State.pumpStep
      rw [hpump]
      exact if_pos hclosed
    · unfold State.pumpStep at hexit
      rw [hpump] at hexit
      simp only [if_neg hclosed] at hexit
      cases hexit
  | failWake d =>
    refine .inr (.inr ?_)
    have herr := h.failing (by rw [State.errLocked, hpump])
    unfold State.pumpStep
    rw [hpump]
    cases d <;> exact herr
  | drain =>
    unfold State.pumpStep at hexit
    rw [hpump] at hexit
    simp only at hexit
    split at hexit <;> cases hexit
  | _ =>
    unfold State.pumpStep at hexit
    rw [hpump] at hexit
    simp only at hexit
    repeat' split at hexit
    all_goals cases hexit

theorem kept_pumpStep (h : Books s) (hk : Kept s) (io : PumpIo) :
    Kept (s.pumpStep io) ↔ (s.pump = .top → s.closed = true → s.err = none → s.txBuf = []) := by
  constructor
  · intro hafter htop hclosed herr
    have hstep : s.pumpStep io = { s with pump := .exited } := by
      unfold State.pumpStep
      rw [htop]
      exact if_pos hclosed
    rw [hstep] at hafter
    have hall : s.written = s.accepted := hafter.2 rfl herr
    have hclear : s.unwritten = [] := h.clear (by rw [htop]; rfl)
    have hsum := h.sum
    rw [← hall, hclear, nil_append] at hsum
    exact append_right_eq_self.1 hsum.symm
  · intro hok
    refine ⟨by rw [pumpStep_flushes]; exact hk.1, fun hexit herr => ?_⟩
    rcases pumpStep_exited h io hexit with hsame | ⟨htop, hclosed, hstep⟩ | hfailed
    · rw [hsame] at hexit herr ⊢
      exact hk.2 hexit herr
    · rw [hstep] at herr ⊢
      have hclear : s.unwritten = [] := h.clear (by rw [htop]; rfl)
      rw [h.sum, hclear, hok htop hclosed herr, append_nil, append_nil]
    · exact absurd herr hfailed

theorem kept_flushReady (h : Books s) (hk : Kept s) (howner : s.owner = .flushReady) :
    Kept s.ownerStep ↔ s.unwritten = [] := by
  have hstep : s.ownerStep = { s.ret (.flushed (.ok ())) with flushes := s.flushes ++ [(s.accepted, s.written)] } := by
    unfold State.ownerStep
    rw [howner]
  have hsum := h.sum
  rw [h.ready howner, append_nil] at hsum
  rw [hstep]
  constructor
  · intro hafter
    have hlast : s.accepted = s.written := hafter.1 _ (mem_append_right _ mem_cons_self)
    rw [hlast] at hsum
    exact append_right_eq_self.1 hsum.symm
  · intro hclear
    rw [hclear, append_nil] at hsum
    refine ⟨fun p hp => ?_, fun _ _ => hsum.symm⟩
    rcases mem_append.1 hp with hp | hp
    · exact hk.1 p hp
    · rwa [mem_singleton.1 hp]

theorem kept_ownerStep (h : Books s) (hk : Kept s) (hready : s.owner ≠ .flushReady) : Kept s.ownerStep := by
  by_cases hwrite : ∃ bytes, s.owner = .writeExtend bytes
  · obtain ⟨bytes, howner⟩ := hwrite
    unfold State.ownerStep
    rw [howner]
    refine ⟨hk.1, fun hexit herr => ?_⟩
    exact absurd herr (h.sending bytes howner (h.gone hexit).1)
  · have hsame : s.ownerStep.flushes = s.flushes ∧ s.ownerStep.pump = s.pump ∧ s.ownerStep.err = s.err ∧
        s.ownerStep.written = s.written ∧ s.ownerStep.accepted = s.accepted := by
      unfold State.ownerStep
      split <;> (repeat' split) <;> try exact ⟨rfl, rfl, rfl, rfl, rfl⟩
      next bytes howner => exact absurd ⟨bytes, howner⟩ hwrite
      next howner => exact absurd howner hready
    obtain ⟨hflushes, hpump, herr, hwritten, haccepted⟩ := hsame
    unfold Kept
    rwa [hflushes, hpump, herr, hwritten, haccepted]

/-- **When flush means written**: in every interleaving of the pump with the owner's calls, every `poll_flush` that
returns `Ready(Ok)` finds all accepted bytes written, and no close discards any while the stream has not failed,
exactly when the pump owes nothing at those points. -/
theorem flush_means_written_iff (steps : List Step) :
    (∀ steps₁, steps₁ <+: steps → Kept (run step {} steps₁)) ↔ Along step OwesNothing {} steps := by
  have hstep : ∀ s e, Books s → Kept s → (Kept (step s e) ↔ OwesNothing s e) := by
    intro s e h hk
    cases e with
    | pump io => exact kept_pumpStep h hk io
    | call c =>
      refine ⟨fun _ => trivial, fun _ => ?_⟩
      rw [step]
      split
      · cases c <;> exact hk
      · exact hk
    | owner =>
      by_cases hready : s.owner = .flushReady
      · exact (kept_flushReady h hk hready).trans ⟨fun hclear _ => hclear, fun hok => hok hready⟩
      · exact ⟨fun _ ho => absurd ho hready, fun _ => kept_ownerStep h hk hready⟩
  have hkept : Kept {} := ⟨nofun, fun _ _ => rfl⟩
  exact run_always_iff_of_inv Books (fun s e h _ => books_step h e) hstep steps {} books_start hkept

def earlyFlush : List Step :=
  [.pump {}, .call (.pollWrite [1]), .owner, .owner, .pump {}, .pump {}, .call (.pollFlush 7), .owner, .owner, .owner]

def hastyShutdown : List Step :=
  [.pump {}, .call (.pollWrite [1]), .owner, .owner, .call .pollShutdown, .owner, .owner, .owner, .pump {}]

/-- **Both halves fail**: a flush that returned `Ok` with nothing written, and a healthy stream closed over a byte that
was accepted and never written. -/
theorem flush_before_write :
    (run step {} earlyFlush).flushes = [([1], [])] ∧
    (run step {} hastyShutdown).pump = .exited ∧ (run step {} hastyShutdown).err = none ∧
    (run step {} hastyShutdown).accepted = [1] ∧ (run step {} hastyShutdown).written = [] := by
  decide +kernel

/-! ## The bytes go through in order -/

def Returned.bytes : Returned → Bytes
  | .read (.ok bytes) => bytes
  | _ => []

def Pump.inHand : Pump → Bytes
  | .got bytes => bytes
  | _ => []

def State.received (s : State) : Bytes := s.returned.flatMap Returned.bytes ++ (s.rxBuf ++ s.pump.inHand)

def arrival (s : State) : Step → Bytes
  | .pump io => if s.pump = .read ∧ io.error = none then io.data.take 8192 else []
  | _ => []

def arrivals (s : State) : List Step → Bytes
  | [] => []
  | e :: es => arrival s e ++ arrivals (step s e) es

theorem received_pumpStep (s : State) (io : PumpIo) :
    (s.pumpStep io).received = s.received ++ arrival s (.pump io) := by
  unfold State.pumpStep
  split <;> rename_i hpump <;> (repeat' split) <;>
    simp_all [State.received, State.wake, Pump.inHand, arrival]
  -- the drain goes on to the read or to a write
  split
  next h => split at h <;> cases h
  · rfl

theorem received_ownerStep (s : State) : s.ownerStep.received = s.received := by
  have hgive : ∀ room, (s.give room).received = s.received := fun room => by
    simp [State.received, State.give, State.ret, Returned.bytes, ← append_assoc (s.rxBuf.take room)]
  unfold State.ownerStep
  split <;> (repeat' split) <;> first
    | rfl
    | exact hgive _
    | simp [State.received, State.ret, State.wake, Returned.bytes]

theorem received_run (steps : List Step) (s : State) :
    (run step s steps).received = s.received ++ arrivals s steps := by
  induction steps generalizing s with
  | nil => exact (append_nil _).symm
  | cons e es ih =>
    have hstep : (step s e).received = s.received ++ arrival s e := by
      cases e with
      | pump io => exact received_pumpStep s io
      | owner => exact (received_ownerStep s).trans (append_nil _).symm
      | call c =>
        refine Eq.trans ?_ (append_nil _).symm
        rw [step]
        split
        · cases c <;> rfl
        · rfl
    rw [run_cons, ih, hstep, arrivals, append_assoc]

/-- **The adapter keeps the bytes in order**, in both directions and whatever fails: what the owner's reads returned,
with what lies in the buffer or in the pump's hand, is what the stream gave; what was accepted is what was written,
with what the pump took and what lies in the buffer, and the pump has taken nothing more unless it is at a write or
has failed. -/
theorem bytes_in_order (steps : List Step) :
    let s := run step {} steps
    s.received = arrivals {} steps ∧ s.accepted = s.written ++ (s.unwritten ++ s.txBuf) ∧
      (s.pump.owes = false → s.unwritten = []) := by
  have h : Books (run step {} steps) := run_keeps Books (fun _ e h => books_step h e) steps _ books_start
  exact ⟨received_run steps {}, h.sum, h.clear⟩

end TailscaleVita.AsyncIo
