import Mathlib.Data.Finset.Card
import TailscaleVita.Run
/-!
# Chan — channels (`vita-chan/src/lib.rs`)

A channel is a queue under a lock, two condition variables, and the numbers of its senders and receivers, which change
and are read without the lock. Calls of any number of threads are interleaved step by step. `pushed` and `popped` keep,
for the theorems only, which call put which value into the queue and which took it out.
-/
namespace TailscaleVita.Chan

open Function List

inductive Side where
  | sender
  | receiver
deriving DecidableEq

def Side.other : Side → Side
  | .sender => .receiver
  | .receiver => .sender

inductive Wait where
  | block
  | once
  | upTo (remaining : Nat)
deriving DecidableEq

def Wait.isOver : Wait → Bool
  | .block => false
  | .once => true
  | .upTo remaining => decide (remaining = 0)

def Wait.after (elapsed : Nat) : Wait → Wait
  | .upTo remaining => .upTo (remaining - elapsed)
  | w => w

inductive Op (α : Type) where
  | send (value : α)
  | recv
deriving DecidableEq

def Op.side {α : Type} : Op α → Side
  | .send _ => .sender
  | .recv => .receiver

inductive Stage (α : Type) where
  | start
  | top
  | checked
  | waiting
  | parked
  | moved (x : α)
  | notify (x : α)
deriving DecidableEq

inductive SendResult (α : Type) where
  | ok
  | full (value : α)
  | disconnected (value : α)
deriving DecidableEq

inductive RecvResult (α : Type) where
  | ok (value : α)
  | empty
  | disconnected
deriving DecidableEq

inductive Call (α : Type) where
  | active (op : Op α) (handle : Nat) (wait : Wait) (stage : Stage α)
  | sent (value : α) (result : SendResult α)
  | received (result : RecvResult α)
  | closing (side : Side)
  | closed
deriving DecidableEq

structure Shared (α : Type) where
  queue : List α := []
  lock : Option Nat := none
  count : Side → Nat := fun _ => 1
  handles : Side → Finset Nat := fun _ => {0}
  calls : List (Call α) := []
  pushed : List (Nat × α) := []
  popped : List (Nat × α) := []

def bounded (cap : Nat) : Option Nat := some (max cap 1)

def unbounded : Option Nat := none

def isFull (cap : Option Nat) (len : Nat) : Bool :=
  match cap with
  | some c => decide (c ≤ len)
  | none => false

section

variable {α : Type}

namespace Shared

def put (s : Shared α) (c : Nat) (k : Call α) (lock : Option Nat) : Shared α :=
  { s with calls := s.calls.set c k, lock := lock }

def wake (s : Shared α) (t elapsed : Nat) : Shared α :=
  match s.calls[t]? with
  | some (.active op h w .parked) => s.put t (.active op h (w.after elapsed) .start) s.lock
  | _ => s

def isParked (s : Shared α) (side : Side) (t : Nat) : Bool :=
  match s.calls[t]? with
  | some (.active op _ _ .parked) => decide (op.side = side)
  | _ => false

def sleepers (s : Shared α) (side : Side) : List Nat := (List.range s.calls.length).filter (s.isParked side)

def notifyOne (s : Shared α) (side : Side) (pick : Nat) (elapsed : Nat → Nat) : Shared α :=
  match s.sleepers side with
  | [] => s
  | t :: ts => let t := if pick ∈ t :: ts then pick else t; s.wake t (elapsed t)

def notifyAll (s : Shared α) (side : Side) (elapsed : Nat → Nat) : Shared α :=
  (s.sleepers side).foldl (fun s t => s.wake t (elapsed t)) s

end Shared

def Op.done (op : Op α) (x : α) : Call α :=
  match op with
  | .send v => .sent v .ok
  | .recv => .received (.ok x)

def advance (cap : Option Nat) (s : Shared α) (c pick : Nat) (elapsed : Nat → Nat) : Shared α :=
  match s.calls[c]? with
  | some (.active op h w .start) => if s.lock = none then s.put c (.active op h w .top) (some c) else s
  | some (.active (.send v) h w .top) =>
    if s.count .receiver = 0 then s.put c (.sent v (.disconnected v)) none
    else s.put c (.active (.send v) h w .checked) s.lock
  | some (.active (.send v) h w .checked) =>
    if isFull cap s.queue.length then
      if w.isOver then s.put c (.sent v (.full v)) none else s.put c (.active (.send v) h w .waiting) s.lock
    else
      { s.put c (.active (.send v) h w (.moved v)) s.lock with
        queue := s.queue ++ [v], pushed := s.pushed ++ [(c, v)] }
  | some (.active .recv h w .top) =>
    match s.queue with
    | [] => s.put c (.active .recv h w .checked) s.lock
    | x :: queue =>
      { s.put c (.active .recv h w (.moved x)) s.lock with queue := queue, popped := s.popped ++ [(c, x)] }
  | some (.active .recv h w .checked) =>
    if s.count .sender = 0 then s.put c (.received .disconnected) none
    else if w.isOver then s.put c (.received .empty) none
    else s.put c (.active .recv h w .waiting) s.lock
  | some (.active op h w .waiting) => s.put c (.active op h w .parked) none
  | some (.active op h w (.moved x)) => s.put c (.active op h w (.notify x)) none
  | some (.active op _ _ (.notify x)) => (s.put c (op.done x) s.lock).notifyOne op.side.other pick elapsed
  | some (.closing side) => (s.put c .closed s.lock).notifyAll side.other elapsed
  | _ => s

def Call.uses (side : Side) (handle : Nat) : Call α → Bool
  | .active op h _ _ => decide (op.side = side ∧ h = handle)
  | _ => false

/-- What may happen next: a call is made on a handle there is, a handle is cloned, or one that is not borrowed is
dropped; a call goes on; or a sleep ends by itself, in time or not. -/
inductive Step (α : Type) where
  | call (op : Op α) (handle : Nat) (wait : Wait)
  | clone (side : Side) (handle new : Nat)
  | drop (side : Side) (handle : Nat)
  | advance (c pick : Nat) (elapsed : Nat → Nat)
  | wake (c elapsed : Nat)

def step (cap : Option Nat) (s : Shared α) : Step α → Shared α
  | .call op h w =>
    if h ∈ s.handles op.side then { s with calls := s.calls ++ [.active op h w .start] } else s
  | .clone side h new =>
    if h ∈ s.handles side ∧ new ∉ s.handles side then
      { s with
        count := update s.count side (s.count side + 1)
        handles := update s.handles side (insert new (s.handles side)) }
    else s
  | .drop side h =>
    if h ∈ s.handles side ∧ (s.calls.any (Call.uses side h)) = false then
      { s with
        count := update s.count side (s.count side - 1)
        handles := update s.handles side ((s.handles side).erase h)
        calls := s.calls ++ [if s.count side = 1 then .closing side else .closed] }
    else s
  | .advance c pick elapsed => advance cap s c pick elapsed
  | .wake c elapsed => s.wake c elapsed

end

/-! ## What holds of every call -/

section

variable {α : Type}

def Call.holds : Call α → Bool
  | .active _ _ _ .top => true
  | .active _ _ _ .checked => true
  | .active _ _ _ .waiting => true
  | .active _ _ _ (.moved _) => true
  | _ => false

def Blocked (cap : Option Nat) (queue : List α) : Side → Prop
  | .sender => isFull cap queue.length = true
  | .receiver => queue = []

def Call.Knows (cap : Option Nat) (queue : List α) : Call α → Prop
  | .active .recv _ _ .checked => queue = []
  | .active op _ _ .waiting => Blocked cap queue op.side
  | _ => True

def Call.GivesBack : Call α → Prop
  | .sent v (.full v') => v' = v
  | .sent v (.disconnected v') => v' = v
  | _ => True

def Call.Pushed (v : α) : Call α → Prop
  | .active (.send v') _ _ (.moved _) => v' = v
  | .active (.send v') _ _ (.notify _) => v' = v
  | .sent v' .ok => v' = v
  | _ => False

def Call.Popped (x : α) : Call α → Prop
  | .active .recv _ _ (.moved y) => y = x
  | .active .recv _ _ (.notify y) => y = x
  | .received (.ok y) => y = x
  | _ => False

structure CallInv (cap : Option Nat) (s : Shared α) (c : Nat) (k : Call α) : Prop where
  lock : k.holds = true ↔ s.lock = some c
  knows : k.Knows cap s.queue
  borrows : ∀ side h, k.uses side h = true → h ∈ s.handles side
  givesBack : k.GivesBack
  ended : k = .received .disconnected → s.queue = [] ∧ s.handles .sender = ∅

structure Inv (cap : Option Nat) (s : Shared α) : Prop where
  call : ∀ c k, s.calls[c]? = some k → CallInv cap s c k
  inRange : ∀ c, s.lock = some c → c < s.calls.length
  counts : ∀ side, s.count side = (s.handles side).card
  order : s.popped.map Prod.snd ++ s.queue = s.pushed.map Prod.snd
  pushes : ∀ c v, (c, v) ∈ s.pushed ↔ ∃ k, s.calls[c]? = some k ∧ k.Pushed v
  pops : ∀ c x, (c, x) ∈ s.popped ↔ ∃ k, s.calls[c]? = some k ∧ k.Popped x
  pushedOnce : (s.pushed.map Prod.fst).Nodup
  poppedOnce : (s.popped.map Prod.fst).Nodup
  room : ∀ n, cap = some n → s.queue.length ≤ n

theorem inv_new (cap : Option Nat) : Inv cap ({} : Shared α) where
  call c k h := by cases h
  inRange c h := by cases h
  counts side := rfl
  order := rfl
  pushes c v := ⟨nofun, fun ⟨k, h, _⟩ => by cases h⟩
  pops c x := ⟨nofun, fun ⟨k, h, _⟩ => by cases h⟩
  pushedOnce := nodup_nil
  poppedOnce := nodup_nil
  room n _ := Nat.zero_le n

variable {cap : Option Nat} {s : Shared α} {c : Nat} {k : Call α}

theorem calls_set (hk : s.calls[c]? = some k) (k' k'' : Call α) (i : Nat) :
    (s.calls.set c k')[i]? = some k'' ↔ i = c ∧ k'' = k' ∨ i ≠ c ∧ s.calls[i]? = some k'' := by
  have hc : c < s.calls.length := (List.getElem?_eq_some_iff.1 hk).1
  rw [getElem?_set]
  by_cases hi : c = i
  · subst hi
    simp [hc, eq_comm]
  · simp [hi, Ne.symm hi]

variable {k' : Call α}

theorem exists_calls_set (hk : s.calls[c]? = some k) {p : Call α → Prop} (hp : p k' ↔ p k) (i : Nat) :
    (∃ k'', (s.calls.set c k')[i]? = some k'' ∧ p k'') ↔ ∃ k'', s.calls[i]? = some k'' ∧ p k'' := by
  simp only [calls_set hk]
  by_cases hi : i = c
  · subst hi
    simp [hk, hp]
  · simp [hi]

structure Turn (cap : Option Nat) (s : Shared α) (c : Nat) (k k' : Call α) (lock : Option Nat) : Prop where
  others : ∀ i, i ≠ c → (lock = some i ↔ s.lock = some i) := by exact fun _ _ => Iff.rfl
  lock : k'.holds = true ↔ lock = some c
  knows : k'.Knows cap s.queue := by trivial
  uses : ∀ side h, k'.uses side h = true → k.uses side h = true := by first | exact fun _ _ hu => hu | nofun
  givesBack : k'.GivesBack := by first | trivial | rfl
  ended : k' = .received .disconnected → s.queue = [] ∧ s.handles .sender = ∅ := by nofun
  pushed : ∀ v, k'.Pushed v ↔ k.Pushed v := by exact fun _ => Iff.rfl
  popped : ∀ x, k'.Popped x ↔ k.Popped x := by exact fun _ => Iff.rfl

theorem Inv.put (h : Inv cap s) (hk : s.calls[c]? = some k) {lock : Option Nat}
    (ht : Turn cap s c k k' lock) : Inv cap (s.put c k' lock) where
  call i ki hi := by
    rcases (calls_set hk k' ki i).1 hi with ⟨rfl, rfl⟩ | ⟨hne, hi⟩
    · exact ⟨ht.lock, ht.knows, fun side h' hu => (h.call i k hk).borrows side h' (ht.uses side h' hu), ht.givesBack,
        ht.ended⟩
    · have hold := h.call i ki hi
      exact ⟨hold.lock.trans (ht.others i hne).symm, hold.knows, hold.borrows, hold.givesBack, hold.ended⟩
  inRange i hi := by
    change i < (s.calls.set c k').length
    rw [length_set]
    by_cases hne : i = c
    · rw [hne]
      exact (List.getElem?_eq_some_iff.1 hk).1
    · exact h.inRange i ((ht.others i hne).1 hi)
  counts := h.counts
  order := h.order
  pushes i v := (h.pushes i v).trans (exists_calls_set hk (ht.pushed v) i).symm
  pops i x := (h.pops i x).trans (exists_calls_set hk (ht.popped x) i).symm
  pushedOnce := h.pushedOnce
  poppedOnce := h.poppedOnce
  room := h.room

theorem Inv.wake (h : Inv cap s) (t elapsed : Nat) : Inv cap (s.wake t elapsed) := by
  unfold Shared.wake
  split
  next op hd w hk =>
    have hlock := (h.call t _ hk).lock
    cases op <;> exact h.put hk { lock := hlock }
  · exact h

theorem Inv.notifyOne (h : Inv cap s) (side : Side) (pick : Nat) (elapsed : Nat → Nat) :
    Inv cap (s.notifyOne side pick elapsed) := by
  unfold Shared.notifyOne
  split
  · exact h
  · exact h.wake _ _

theorem Inv.notifyAll (h : Inv cap s) (side : Side) (elapsed : Nat → Nat) : Inv cap (s.notifyAll side elapsed) := by
  unfold Shared.notifyAll
  generalize s.sleepers side = ts
  induction ts generalizing s with
  | nil => exact h
  | cons t ts ih => exact ih (h.wake t (elapsed t))

theorem Inv.not_holds (h : Inv cap s) (hk : s.calls[c]? = some k) (hl : k.holds = true) {i : Nat} {ki : Call α}
    (hi : s.calls[i]? = some ki) (hne : i ≠ c) : ki.holds = false := by
  have hlock : s.lock = some c := (h.call c k hk).lock.1 hl
  cases hh : ki.holds with
  | false => rfl
  | true =>
    have hlock' := (h.call i ki hi).lock.1 hh
    rw [hlock] at hlock'
    exact absurd (Option.some.inj hlock').symm hne

theorem knows_of_not_holds {ki : Call α} (hh : ki.holds = false) (queue : List α) : ki.Knows cap queue := by
  cases ki with
  | active op h w stage =>
    cases stage with
    | checked | waiting => cases hh
    | start => cases op <;> trivial
    | top => cases hh
    | parked => cases op <;> trivial
    | moved x => cases hh
    | notify x => cases op <;> trivial
  | sent v r | received r | closing side | closed => trivial

variable {v : α}

section

variable (hk : s.calls[c]? = some k) {log : List (Nat × α)} {P : α → Call α → Prop}
  (hlog : ∀ i x, (i, x) ∈ log ↔ ∃ k, s.calls[i]? = some k ∧ P x k) (hnot : ∀ x, ¬ P x k)
include hk hlog hnot

theorem nodup_append_new (h : (log.map Prod.fst).Nodup) : ((log ++ [(c, v)]).map Prod.fst).Nodup := by
  rw [map_append, map_singleton, ← concat_eq_append, nodup_concat]
  refine ⟨fun hmem => ?_, h⟩
  obtain ⟨⟨c', v'⟩, hin, rfl⟩ := mem_map.1 hmem
  obtain ⟨k', hk', hp⟩ := (hlog c' v').1 hin
  rw [hk] at hk'
  cases hk'
  exact hnot v' hp

theorem log_append (hnew : ∀ x, P x k' ↔ x = v) (i : Nat) (x : α) :
    (i, x) ∈ log ++ [(c, v)] ↔ ∃ k'', (s.calls.set c k')[i]? = some k'' ∧ P x k'' := by
  simp only [mem_append, mem_singleton, Prod.mk.injEq, hlog, calls_set hk]
  by_cases hi : i = c
  · subst hi
    simp [hk, hnot, hnew]
  · simp [hi]

end

variable {hd : Nat} {w : Wait}

theorem Inv.moves (h : Inv cap s) (hk : s.calls[c]? = some k) (hl : k.holds = true) (hl' : k'.holds = true)
    {queue : List α} {pushed popped : List (Nat × α)} (hknows : k'.Knows cap queue)
    (huses : ∀ side h, k'.uses side h = true → k.uses side h = true) (hback : k'.GivesBack)
    (hopen : ∀ {p : Prop}, s.queue = [] ∧ s.handles .sender = ∅ → p)
    (horder : popped.map Prod.snd ++ queue = pushed.map Prod.snd)
    (hpushes : ∀ i v, (i, v) ∈ pushed ↔ ∃ k'', (s.calls.set c k')[i]? = some k'' ∧ k''.Pushed v)
    (hpops : ∀ i x, (i, x) ∈ popped ↔ ∃ k'', (s.calls.set c k')[i]? = some k'' ∧ k''.Popped x)
    (hpushed : (pushed.map Prod.fst).Nodup) (hpopped : (popped.map Prod.fst).Nodup)
    (hroom : ∀ n, cap = some n → queue.length ≤ n) :
    Inv cap { s.put c k' s.lock with queue := queue, pushed := pushed, popped := popped } where
  call i ki hi := by
    rcases (calls_set hk _ ki i).1 hi with ⟨rfl, rfl⟩ | ⟨hne, hi⟩
    · have hold := h.call i k hk
      refine ⟨⟨fun _ => hold.lock.1 hl, fun _ => hl'⟩, hknows,
        fun side hd hu => hold.borrows side hd (huses side hd hu),
        hback, ?_⟩
      rintro rfl
      cases hl'
    · have hother := h.call i ki hi
      exact ⟨hother.lock, knows_of_not_holds (h.not_holds hk hl hi hne) _, hother.borrows, hother.givesBack,
        fun he => hopen (hother.ended he)⟩
  inRange i hi := by
    change i < (s.calls.set c _).length
    rw [length_set]
    exact h.inRange i hi
  counts := h.counts
  order := horder
  pushes := hpushes
  pops := hpops
  pushedOnce := hpushed
  poppedOnce := hpopped
  room := hroom

theorem Inv.push (h : Inv cap s) (hk : s.calls[c]? = some (.active (.send v) hd w .checked))
    (hroom : isFull cap s.queue.length = false) :
    Inv cap { s.put c (.active (.send v) hd w (.moved v)) s.lock with
      queue := s.queue ++ [v], pushed := s.pushed ++ [(c, v)] } := by
  have hsender : hd ∈ s.handles .sender := (h.call c _ hk).borrows .sender hd (decide_eq_true ⟨rfl, rfl⟩)
  have hsame : ∀ x, (Call.active (.send v) hd w (.moved v)).Popped x ↔ (Call.active (.send v) hd w .checked).Popped x :=
    fun _ => Iff.rfl
  refine h.moves hk rfl rfl trivial (fun _ _ hu => hu) trivial (fun hended => ?_) ?_
    (log_append hk h.pushes (fun _ hx => hx) (fun _ => eq_comm))
    (fun i x => (h.pops i x).trans (exists_calls_set hk (hsame x) i).symm)
    (nodup_append_new hk h.pushes (fun _ hx => hx) h.pushedOnce) h.poppedOnce (fun n hn => ?_)
  · -- whoever was told that the channel is closed, there is a sender
    rw [hended.2] at hsender
    exact absurd hsender (Finset.notMem_empty hd)
  · change s.popped.map Prod.snd ++ (s.queue ++ [v]) = _
    rw [← append_assoc, h.order, map_append]
    rfl
  · rw [hn] at hroom
    have hlt : ¬ n ≤ s.queue.length := of_decide_eq_false hroom
    rw [length_append, length_singleton]
    omega

theorem Inv.pop {x : α} {queue : List α} (h : Inv cap s) (hk : s.calls[c]? = some (.active .recv hd w .top))
    (hqueue : s.queue = x :: queue) :
    Inv cap { s.put c (.active .recv hd w (.moved x)) s.lock with
      queue := queue, popped := s.popped ++ [(c, x)] } := by
  have hsame : ∀ v, (Call.active .recv hd w (.moved x)).Pushed v ↔ (Call.active .recv hd w .top).Pushed v :=
    fun _ => Iff.rfl
  refine h.moves hk rfl rfl trivial (fun _ _ hu => hu) trivial (fun hended => ?_) ?_
    (fun i v => (h.pushes i v).trans (exists_calls_set hk (hsame v) i).symm)
    (log_append hk h.pops (fun _ hx => hx) (fun _ => eq_comm)) h.pushedOnce
    (nodup_append_new hk h.pops (fun _ hx => hx) h.poppedOnce) (fun n hn => ?_)
  · rw [hended.1] at hqueue
    cases hqueue
  · change _ = s.pushed.map Prod.snd
    rw [← h.order, hqueue, map_append, append_assoc]
    rfl
  · have hlen := h.room n hn
    rw [hqueue, length_cons] at hlen
    omega

theorem others_acquire (hfree : s.lock = none) (i : Nat) (hne : i ≠ c) : some c = some i ↔ s.lock = some i := by
  rw [hfree]
  exact ⟨fun he => absurd (Option.some.inj he).symm hne, fun he => by cases he⟩

theorem Inv.releases (h : Inv cap s) (hk : s.calls[c]? = some k)
    (hended : k' = .received .disconnected → s.queue = [] ∧ s.handles .sender = ∅ := by nofun)
    (huses : ∀ side hd, k'.uses side hd = true → k.uses side hd = true := by first | exact fun _ _ hu => hu | nofun)
    (hback : k'.GivesBack := by first | trivial | rfl)
    (hpushed : ∀ v, k'.Pushed v ↔ k.Pushed v := by exact fun _ => Iff.rfl)
    (hpopped : ∀ x, k'.Popped x ↔ k.Popped x := by exact fun _ => Iff.rfl) (hheld : k.holds = true := by rfl)
    (hholds : k'.holds = false := by rfl) : Inv cap (s.put c k' none) := by
  have hlock : s.lock = some c := (h.call c _ hk).lock.1 hheld
  refine h.put hk ⟨fun i hne => ?_, ?_, knows_of_not_holds hholds _, huses, hback, hended, hpushed, hpopped⟩
  · rw [hlock]
    exact ⟨nofun, fun he => absurd (Option.some.inj he).symm hne⟩
  · rw [hholds]
    exact ⟨nofun, fun he => by cases he⟩

theorem Inv.advance (h : Inv cap s) (c pick : Nat) (elapsed : Nat → Nat) : Inv cap (advance cap s c pick elapsed) := by
  unfold Chan.advance
  split <;> try rename_i hk
  · split
    next hfree =>
      rename_i op _ _
      cases op <;> exact h.put hk { others := others_acquire hfree, lock := ⟨fun _ => rfl, fun _ => rfl⟩ }
    · exact h
  · split
    · exact h.releases hk
    · exact h.put hk { lock := (h.call c _ hk).lock }
  · split
    next hfull =>
      split
      · exact h.releases hk
      · exact h.put hk { lock := (h.call c _ hk).lock, knows := hfull }
    next hroom => exact h.push hk (Bool.eq_false_iff.2 hroom)
  · split
    next hempty => exact h.put hk { lock := (h.call c _ hk).lock, knows := hempty }
    next x queue hqueue => exact h.pop hk hqueue
  · have hempty : s.queue = [] := (h.call c _ hk).knows
    split
    next hcount =>
      exact h.releases hk (fun _ => ⟨hempty, Finset.card_eq_zero.1 ((h.counts .sender).symm.trans hcount)⟩)
    · split
      · exact h.releases hk
      · exact h.put hk { lock := (h.call c _ hk).lock, knows := hempty }
  next op hd w =>
    cases op <;> exact h.releases hk
  next op hd w x =>
    cases op <;> exact h.releases hk
  next op hd w x =>
    have hlock := (h.call c _ hk).lock
    have hturn : Turn cap s c (.active op hd w (.notify x)) (op.done x) s.lock := by
      cases op <;> exact { lock := hlock }
    exact (h.put hk hturn).notifyOne _ _ _
  next side =>
    have hturn : Turn cap s c (.closing side) .closed s.lock := { lock := (h.call c _ hk).lock }
    exact (h.put hk hturn).notifyAll _ _
  · exact h

theorem calls_append (k0 k' : Call α) (i : Nat) :
    (s.calls ++ [k0])[i]? = some k' ↔ s.calls[i]? = some k' ∨ i = s.calls.length ∧ k' = k0 := by
  rcases Nat.lt_trichotomy i s.calls.length with hlt | rfl | hgt
  · rw [getElem?_append_left hlt]
    simp [Nat.ne_of_lt hlt]
  · rw [getElem?_concat_length]
    simp [eq_comm]
  · have hnone : (s.calls ++ [k0])[i]? = none := by
      rw [getElem?_eq_none_iff, length_append, length_singleton]
      omega
    rw [hnone, getElem?_eq_none_iff.2 (Nat.le_of_lt hgt)]
    simp [Nat.ne_of_gt hgt]

theorem exists_calls_append {k0 : Call α} {p : Call α → Prop} (hp : ¬ p k0) (i : Nat) :
    (∃ k', (s.calls ++ [k0])[i]? = some k' ∧ p k') ↔ ∃ k', s.calls[i]? = some k' ∧ p k' := by
  simp only [calls_append]
  constructor
  · rintro ⟨k', hk' | ⟨-, rfl⟩, hpk⟩
    · exact ⟨k', hk', hpk⟩
    · exact absurd hpk hp
  · rintro ⟨k', hk', hpk⟩
    exact ⟨k', .inl hk', hpk⟩

theorem Inv.begin (h : Inv cap s) (k0 : Call α) {count : Side → Nat} {handles : Side → Finset Nat}
    (hholds : k0.holds = false) (hback : k0.GivesBack) (hended : k0 ≠ .received .disconnected)
    (huses : ∀ side hd, k0.uses side hd = true → hd ∈ handles side) (hpushed : ∀ v, ¬ k0.Pushed v)
    (hpopped : ∀ x, ¬ k0.Popped x) (hcounts : ∀ side, count side = (handles side).card)
    (hkept : ∀ (i : Nat) (k : Call α), s.calls[i]? = some k → ∀ side hd, k.uses side hd = true → hd ∈ handles side)
    (hnone : s.handles .sender = ∅ → handles .sender = ∅) :
    Inv cap { s with calls := s.calls ++ [k0], count := count, handles := handles } where
  call i k hi := by
    rcases (calls_append k0 k i).1 hi with hi | ⟨rfl, rfl⟩
    · have hold := h.call i k hi
      exact ⟨hold.lock, hold.knows, hkept i k hi, hold.givesBack,
        fun he => ⟨(hold.ended he).1, hnone (hold.ended he).2⟩⟩
    · refine ⟨?_, knows_of_not_holds hholds s.queue, huses, hback, fun he => absurd he hended⟩
      rw [hholds]
      exact ⟨nofun, fun he => absurd (h.inRange _ he) (Nat.lt_irrefl _)⟩
  inRange i hi := by
    rw [length_append]
    exact Nat.lt_of_lt_of_le (h.inRange i hi) (Nat.le_add_right _ _)
  counts := hcounts
  order := h.order
  pushes i v := (h.pushes i v).trans (exists_calls_append (hpushed v) i).symm
  pops i x := (h.pops i x).trans (exists_calls_append (hpopped x) i).symm
  pushedOnce := h.pushedOnce
  poppedOnce := h.poppedOnce
  room := h.room

theorem Inv.clone {side : Side} {hd new : Nat} (h : Inv cap s) (hmem : hd ∈ s.handles side)
    (hnew : new ∉ s.handles side) :
    Inv cap { s with
      count := update s.count side (s.count side + 1)
      handles := update s.handles side (insert new (s.handles side)) } := by
  refine ⟨fun i k hi => ?_, h.inRange, fun side' => ?_, h.order, h.pushes, h.pops, h.pushedOnce, h.poppedOnce, h.room⟩
  · have hold := h.call i k hi
    refine ⟨hold.lock, hold.knows, fun side' hd' hu => ?_, hold.givesBack, fun he => ⟨(hold.ended he).1, ?_⟩⟩
    · have hborrowed := hold.borrows side' hd' hu
      change hd' ∈ update s.handles side _ side'
      by_cases hside : side' = side
      · subst hside
        rw [update_self]
        exact Finset.mem_insert_of_mem hborrowed
      · rwa [update_of_ne hside]
    · -- where a receiver was told that the channel is closed, there is no sender to clone
      have hsender : Side.sender ≠ side := by
        rintro rfl
        rw [(hold.ended he).2] at hmem
        exact absurd hmem (Finset.notMem_empty hd)
      change update s.handles side _ .sender = ∅
      rw [update_of_ne hsender]
      exact (hold.ended he).2
  · change update s.count side _ side' = (update s.handles side _ side').card
    by_cases hside : side' = side
    · subst hside
      rw [update_self, update_self, Finset.card_insert_of_notMem hnew, h.counts]
    · rw [update_of_ne hside, update_of_ne hside, h.counts]

theorem Inv.drop {side : Side} (h : Inv cap s) (hmem : hd ∈ s.handles side)
    (hfree : ∀ k ∈ s.calls, ¬ k.uses side hd = true) :
    Inv cap { s with
      count := update s.count side (s.count side - 1)
      handles := update s.handles side ((s.handles side).erase hd)
      calls := s.calls ++ [if s.count side = 1 then .closing side else .closed] } := by
  refine h.begin (if s.count side = 1 then .closing side else .closed) ?_ ?_ ?_ ?_ ?_ ?_ (fun side' => ?_)
    (fun i k hi side' hd' hu => ?_) (fun he => ?_)
  · split <;> rfl
  · split <;> trivial
  · split <;> exact fun he => by cases he
  · intro side' hd' hu
    split at hu <;> cases hu
  · intro v
    split <;> exact fun hp => hp
  · intro x
    split <;> exact fun hp => hp
  · by_cases hside : side' = side
    · subst hside
      rw [update_self, update_self, Finset.card_erase_of_mem hmem, h.counts]
    · rw [update_of_ne hside, update_of_ne hside, h.counts]
  · by_cases hside : side' = side
    · subst hside
      rw [update_self, Finset.mem_erase]
      refine ⟨?_, (h.call i k hi).borrows side' hd' hu⟩
      -- a borrowed handle is not dropped
      rintro rfl
      exact hfree k (mem_of_getElem? hi) hu
    · rw [update_of_ne hside]
      exact (h.call i k hi).borrows side' hd' hu
  · by_cases hside : Side.sender = side
    · subst hside
      rw [he] at hmem
      exact absurd hmem (Finset.notMem_empty hd)
    · rwa [update_of_ne hside]

theorem step_inv (h : Inv cap s) (e : Step α) : Inv cap (step cap s e) := by
  cases e with
  | call op hd w =>
    rw [step]
    split
    next hmem =>
      refine h.begin (.active op hd w .start) rfl trivial nofun (fun side hd' hu => ?_) (fun v => ?_)
        (fun x => ?_) h.counts (fun i k hi => (h.call i k hi).borrows) (fun he => he)
      · obtain ⟨rfl, rfl⟩ := of_decide_eq_true hu
        exact hmem
      · cases op <;> exact fun hp => hp
      · cases op <;> exact fun hp => hp
    · exact h
  | clone side hd new =>
    rw [step]
    split
    next hmem => exact h.clone hmem.1 hmem.2
    · exact h
  | drop side hd =>
    rw [step]
    split
    next hmem => exact h.drop hmem.1 (any_eq_false.1 hmem.2)
    · exact h
  | advance c pick elapsed => exact h.advance c pick elapsed
  | wake c elapsed => exact h.wake c elapsed

theorem run_inv_new (cap : Option Nat) (steps : List (Step α)) : Inv cap (run (step cap) {} steps) :=
  run_keeps (Inv cap) (fun _ e h => step_inv h e) steps {} (inv_new cap)

end

/-! ## Linearizability -/

section

variable {α : Type}

def Shared.received (s : Shared α) : List α := s.popped.map Prod.snd

def Shared.sent (s : Shared α) : List α := s.pushed.map Prod.snd

def Call.isSent : Call α → Bool
  | .sent _ .ok => true
  | _ => false

def Shared.returnedOk (s : Shared α) : List α :=
  (s.pushed.filter (fun e => (s.calls[e.1]?).any Call.isSent)).map Prod.snd

def Call.Finishing : Call α → Prop
  | .active (.send _) _ _ (.moved _) => True
  | .active (.send _) _ _ (.notify _) => True
  | _ => False

variable {cap : Option Nat} {s : Shared α}

variable {k : Call α} {v : α}

theorem Call.pushed_iff : k.Pushed v ↔ k = .sent v .ok ∨ k.Pushed v ∧ k.Finishing := by
  unfold Call.Pushed Call.Finishing
  split
  · simp
  · simp
  next v' => simp
  · simp_all

variable {c : Nat}

theorem calls_wake_of_ne (hk : s.calls[c]? = some k)
    (hawake : ∀ op h w, k ≠ .active op h w .parked) (t elapsed : Nat) : (s.wake t elapsed).calls[c]? = some k := by
  unfold Shared.wake
  split
  next op h w ht =>
    refine (calls_set ht _ k c).2 (.inr ⟨?_, hk⟩)
    rintro rfl
    rw [ht] at hk
    exact hawake op h w (Option.some.inj hk).symm
  · exact hk

theorem calls_notifyOne (hk : s.calls[c]? = some k) (hawake : ∀ op h w, k ≠ .active op h w .parked) (side : Side)
    (pick : Nat) (elapsed : Nat → Nat) :
    (s.notifyOne side pick elapsed).calls[c]? = some k := by
  unfold Shared.notifyOne
  split
  · exact hk
  · exact calls_wake_of_ne hk hawake _ _

theorem calls_put_self (hk : s.calls[c]? = some k) (k' : Call α) (lock : Option Nat) :
    (s.put c k' lock).calls[c]? = some k' :=
  (calls_set hk k' k' c).2 (.inl ⟨rfl, rfl⟩)

theorem advance_notify {c h : Nat} {v x : α} {w : Wait} (hk : s.calls[c]? = some (.active (.send v) h w (.notify x)))
    (pick : Nat) (elapsed : Nat → Nat) : (advance cap s c pick elapsed).calls[c]? = some (.sent v .ok) := by
  unfold advance
  rw [hk]
  exact calls_notifyOne (calls_put_self hk _ _) (by nofun) _ _ _

theorem advance_sent (hk : s.calls[c]? = some (.sent v .ok)) (pick : Nat) (elapsed : Nat → Nat) :
    (advance cap s c pick elapsed).calls[c]? = some (.sent v .ok) := by
  unfold advance
  rwa [hk]

theorem pushed_returns (hk : s.calls[c]? = some k) (hp : k.Pushed v) (pick pick' : Nat) (elapsed elapsed' : Nat → Nat) :
    (run (step cap) s [.advance c pick elapsed, .advance c pick' elapsed']).calls[c]? = some (.sent v .ok) := by
  cases k with
  | active op h w stage =>
    cases op with
    | recv => cases hp
    | send v' =>
      cases stage with
      | moved x =>
        obtain rfl : v' = v := hp
        have hnext : (advance cap s c pick elapsed).calls[c]? = some (.active (.send v') h w (.notify x)) := by
          unfold advance
          rw [hk]
          exact calls_put_self hk _ _
        exact advance_notify hnext pick' elapsed'
      | notify x =>
        obtain rfl : v' = v := hp
        exact advance_sent (advance_notify hk pick elapsed) pick' elapsed'
      | start | top | checked | waiting | parked => cases hp
  | sent v' r =>
    cases r with
    | ok =>
      obtain rfl : v' = v := hp
      exact advance_sent (advance_sent hk pick elapsed) pick' elapsed'
    | full v'' | disconnected v'' => cases hp
  | received r | closing side | closed => cases hp

/-- **A channel is a queue**, whatever its capacity and however its calls are interleaved: the values received are, in
their order, the first of those sent; each call sends once and receives once; a value sent is that of a call that
returned `Ok` or has nothing left but to say so; a send that fails gives its value back and has sent nothing; the queue
keeps to its capacity; and who is told `Disconnected` finds the queue empty and no sender left. -/
theorem channel_linearizable (cap : Option Nat) (steps : List (Step α)) :
    let s := run (step cap) {} steps
    s.received ++ s.queue = s.sent ∧
    (s.pushed.map Prod.fst).Nodup ∧ (s.popped.map Prod.fst).Nodup ∧
    (∀ (c : Nat) (v : α), (c, v) ∈ s.pushed → ∀ pick pick' elapsed elapsed',
      (run (step cap) s [.advance c pick elapsed, .advance c pick' elapsed']).calls[c]? = some (.sent v .ok)) ∧
    (∀ (c : Nat) (v : α), s.calls[c]? = some (.sent v .ok) → (c, v) ∈ s.pushed) ∧
    (∀ (c : Nat) (x : α), s.calls[c]? = some (.received (.ok x)) → (c, x) ∈ s.popped) ∧
    ((∀ k ∈ s.calls, ¬ k.Finishing) → s.received <+: s.returnedOk) ∧
    (∀ (c : Nat) (v : α) (r : SendResult α), s.calls[c]? = some (.sent v r) → r ≠ .ok →
      (r = .full v ∨ r = .disconnected v) ∧ ∀ v', (c, v') ∉ s.pushed) ∧
    (∀ n, cap = some n → s.queue.length ≤ n) ∧
    ∀ c : Nat, s.calls[c]? = some (.received .disconnected) →
      s.queue = [] ∧ s.handles .sender = ∅ ∧ s.count .sender = 0 := by
  intro s
  have h : Inv cap s := run_inv_new cap steps
  refine ⟨h.order, h.pushedOnce, h.poppedOnce, fun c v hmem => ?_, fun c v hk => ?_, fun c x hk => ?_, fun hnone => ?_,
    fun c v r hk hr => ?_, h.room, fun c hk => ?_⟩
  · obtain ⟨k, hk, hp⟩ := (h.pushes c v).1 hmem
    exact pushed_returns hk hp
  · exact (h.pushes c v).2 ⟨_, hk, rfl⟩
  · exact (h.pops c x).2 ⟨_, hk, rfl⟩
  · have hall : s.returnedOk = s.sent := by
      unfold Shared.returnedOk Shared.sent
      rw [filter_eq_self.2]
      rintro ⟨c, v⟩ hmem
      obtain ⟨k, hk, hp⟩ := (h.pushes c v).1 hmem
      rcases Call.pushed_iff.1 hp with rfl | ⟨-, hf⟩
      · simp only [hk]
        rfl
      · exact absurd hf (hnone k (mem_of_getElem? hk))
    rw [hall]
    exact ⟨s.queue, h.order⟩
  · have hback := (h.call c _ hk).givesBack
    refine ⟨?_, fun v' hmem => ?_⟩
    · cases r with
      | ok => exact absurd rfl hr
      | full v' => exact .inl (congrArg SendResult.full hback)
      | disconnected v' => exact .inr (congrArg SendResult.disconnected hback)
    · obtain ⟨k, hk', hp⟩ := (h.pushes c v').1 hmem
      rw [hk] at hk'
      cases hk'
      cases r with
      | ok => exact hr rfl
      | full v' | disconnected v' => exact hp
  · obtain ⟨hempty, hnone⟩ := (h.call c _ hk).ended rfl
    exact ⟨hempty, hnone, by rw [h.counts, hnone, Finset.card_empty]⟩

def steps (c n : Nat) : List (Step α) := List.replicate n (.advance c 0 (fun _ => 0))

def handover : List (Step Nat) :=
  List.flatten [.call (.send 7) 0 .block :: steps 0 5, .call (.send 8) 0 .once :: steps 1 3,
    .drop .sender 0 :: steps 2 1, .call .recv 0 .block :: steps 3 4, .call .recv 0 (.upTo 5) :: steps 4 3]

theorem channel_linearizable_handover :
    let s := run (step (bounded 0)) {} handover
    s.received = [7] ∧ s.received <+: s.returnedOk ∧ s.calls[4]? = some (.received .disconnected) ∧
      s.handles .sender = ∅ ∧ s.calls[1]? = some (.sent 8 (.full 8)) ∧ ∀ v', (1, v') ∉ s.pushed := by
  intro s
  have hfull : s.calls[1]? = some (.sent 8 (.full 8)) := by decide +kernel
  have hclosed : s.calls[4]? = some (.received .disconnected) := by decide +kernel
  have hnone : ∀ k ∈ s.calls, ¬ k.Finishing := by
    have hcalls : s.calls = [.sent 7 .ok, .sent 8 (.full 8), .closed, .received (.ok 7), .received .disconnected] := by
      decide +kernel
    rw [hcalls]
    simp [Call.Finishing]
  obtain ⟨-, -, -, -, -, -, hpre, hback, -, hended⟩ := channel_linearizable (bounded 0) handover
  exact ⟨by decide +kernel, hpre hnone, hclosed, (hended 4 hclosed).2.1, hfull,
    (hback 1 8 (.full 8) hfull nofun).2⟩

end

end TailscaleVita.Chan
