import TailscaleVita.Slot
import TailscaleVita.Threads
/-!
# SyncOnce — one-time initialisation (`vita-sync/src/vita.rs`)

`OnceLock` and `Once` are an atomic state of three values. Calls of any number of threads are interleaved access by
access; an initialiser is one more section of its call, which meets its result, or a panic. `Once` has no value: there
the cell's `value` keeps, for the theorems only, what the initialiser returned.
-/
namespace TailscaleVita.Sync

inductive OnceState where
  | empty
  | init
  | ready
deriving DecidableEq

structure OnceCell (α : Type) where
  state : OnceState := .empty
  value : Option α := none
  made : List α := []

inductive OnceOp (α : Type) where
  | set (value : α)
  | getOrInit
  | callOnce
deriving DecidableEq

inductive OnceReturned (α : Type) where
  | nothing
  | reference (value : Option α)
  | setOk
  | setErr (value : α)
  | completed
  | panicked
deriving DecidableEq

inductive OnceCall (α : Type) where
  | get
  | load (op : OnceOp α)
  | claim (op : OnceOp α)
  | running (op : OnceOp α)
  | write (op : OnceOp α) (value : α)
  | store (op : OnceOp α) (value : α)
  | spin (op : OnceOp α)
  | read
  | ended (result : OnceReturned α)
deriving DecidableEq

section

variable {α : Type}

def OnceOp.done : OnceOp α → OnceCall α
  | .set _ => .ended .setOk
  | .getOrInit => .read
  | .callOnce => .ended .completed

def OnceCell.put (c : OnceCell α) (v : α) : OnceCell α := { c with value := some v, made := c.made ++ [v] }

def OnceCall.access (c : OnceCell α) (result : Option α) : OnceCall α → OnceCell α × OnceCall α
  | .get => (c, .ended (if c.state = .ready then .reference c.value else .nothing))
  | .load op => (c, if c.state = .ready then op.done else .claim op)
  | .claim op =>
    if c.state = .empty then
      ({ c with state := .init }, match op with
        | .set v => .write op v
        | _ => .running op)
    else
      (c, match op with
        | .set v => .ended (.setErr v)
        | _ => .spin op)
  | .running op =>
    match result, op with
    | none, _ => (c, .ended .panicked)
    | some v, .callOnce => (c.put v, .store .callOnce v)
    | some v, op => (c, .write op v)
  | .write op v => (c.put v, .store op v)
  | .store op _ => ({ c with state := .ready }, op.done)
  | .spin op => (c, if c.state = .ready then op.done else .spin op)
  | .read => (c, .ended (.reference c.value))
  | .ended r => (c, .ended r)

inductive OnceRequest (α : Type) where
  | get
  | fill (op : OnceOp α)

def OnceRequest.start : OnceRequest α → OnceCall α
  | .get => .get
  | .fill (.set v) => .claim (.set v)
  | .fill op => .load op

def onceThreads (α : Type) : Threads (OnceCell α) (OnceCall α) Empty (OnceRequest α) (Option α) where
  call _ c request := (c, some request.start, [])
  resume _ _ c t result := ((t.access c result).1, (t.access c result).2, [])

abbrev OnceWorld (α : Type) := World (OnceCell α) (OnceCall α) Empty

abbrev OnceEvent (α : Type) := WorldEvent (OnceRequest α) (Option α)

def onceStep (w : OnceWorld α) (e : OnceEvent α) : OnceWorld α := w.step (onceThreads α) e

def OnceWorld.new : OnceWorld α := { shared := {} }

/-! ## What every interleaving keeps -/

def OnceCall.place : OnceCall α → Claim α
  | .running _ => .building
  | .write _ _ => .building
  | .store _ v => .built (some v)
  | _ => .away

inductive OnceCell.Holds (c : OnceCell α) : Slot α → Prop where
  | vacant (h : c.state = .empty) : Holds c .vacant
  | claimed (h : c.state = .init) : Holds c .claimed
  | filled {v : α} (h : c.state = .ready) (hv : c.value = some v) : Holds c (.filled v)

def OnceCall.Knows (c : OnceCell α) : OnceCall α → Prop
  | .store _ v => c.value = some v
  | .read => c.state = .ready
  | .ended (.reference r) => c.state = .ready ∧ r = c.value
  | .ended .setOk => c.state = .ready
  | .ended .completed => c.state = .ready
  | _ => True

structure OnceInv (w : OnceWorld α) : Prop where
  slot : ∃ slot, w.shared.Holds slot ∧ slot.Inv w.shared.made (places OnceCall.place w.tasks)
  knows : ∀ (id : Nat) (t : OnceCall α), w.tasks[id]? = some t → t.Knows w.shared

variable {c : OnceCell α}

theorem OnceOp.done_spec (op : OnceOp α) (h : c.state = .ready) : op.done.Knows c ∧ op.done.place = .away := by
  cases op <;> exact ⟨h, rfl⟩

variable {t : OnceCall α}

theorem access_away (h : t.place = .away) (hc : c.state ≠ .empty) (r : Option α) : (t.access c r).1 = c := by
  cases t with
  | claim op => simp only [OnceCall.access, if_neg hc]
  | running _ | write _ _ | store _ _ => cases h
  | _ => rfl

theorem access_move {slot : Slot α} (hslot : c.Holds slot) (ht : t.Knows c) (hclaim : t.place ≠ .away → slot = .claimed)
    (r : Option α) :
    (t.access c r).2.Knows (t.access c r).1 ∧ ∃ slot', (t.access c r).1.Holds slot' ∧
      Slot.Move slot c.made t.place slot' (t.access c r).1.made (t.access c r).2.place := by
  have hput : ∀ v, t.place = .building → (c.put v).Holds slot := by
    intro v hbuilding
    cases hclaim (by rw [hbuilding]; nofun)
    cases hslot with
    | claimed h => exact .claimed h
  cases t with
  | get =>
    simp only [OnceCall.access]
    split
    next hready => exact ⟨⟨hready, rfl⟩, slot, hslot, .stay⟩
    · exact ⟨trivial, slot, hslot, .stay⟩
  | load op =>
    simp only [OnceCall.access]
    split
    next hready =>
      obtain ⟨hknows, haway⟩ := op.done_spec hready
      exact ⟨hknows, slot, hslot, by rw [haway]; exact .stay⟩
    · exact ⟨trivial, slot, hslot, .stay⟩
  | claim op =>
    by_cases hempty : c.state = .empty
    · have hvacant : slot = .vacant := by
        cases hslot with
        | vacant _ => rfl
        | claimed h | filled h _ => rw [hempty] at h; cases h
      simp only [OnceCall.access, if_pos hempty, hvacant]
      cases op <;> exact ⟨trivial, .claimed, .claimed rfl, .claim⟩
    · simp only [OnceCall.access, if_neg hempty]
      cases op <;> exact ⟨trivial, slot, hslot, .stay⟩
  | running op =>
    cases r with
    | none => exact ⟨trivial, slot, hslot, .abandon⟩
    | some v =>
      cases op with
      | callOnce => exact ⟨rfl, slot, hput v rfl, .build (some v)⟩
      | set _ | getOrInit => exact ⟨trivial, slot, hslot, .stay⟩
  | write op v => exact ⟨rfl, slot, hput v rfl, .build (some v)⟩
  | store op v =>
    have hready : ({ c with state := .ready } : OnceCell α).state = .ready := rfl
    obtain ⟨hknows, haway⟩ := op.done_spec hready
    refine ⟨hknows, .filled v, .filled rfl ht, ?_⟩
    change Slot.Move slot c.made (.built (some v)) (.filled v) c.made op.done.place
    rw [haway]
    exact .fill
  | spin op =>
    simp only [OnceCall.access]
    split
    next hready =>
      obtain ⟨hknows, haway⟩ := op.done_spec hready
      exact ⟨hknows, slot, hslot, by rw [haway]; exact .stay⟩
    · exact ⟨trivial, slot, hslot, .stay⟩
  | read => exact ⟨⟨ht, rfl⟩, slot, hslot, .stay⟩
  | ended r => exact ⟨ht, slot, hslot, .stay⟩

variable {w : OnceWorld α}

theorem OnceInv.others (h : OnceInv w) {id j : Nat} {t u : OnceCall α} (hid : w.tasks[id]? = some t)
    (hj : w.tasks[j]? = some u) (hne : j ≠ id) (r : Option α) :
    u.Knows (t.access w.shared r).1 := by
  obtain ⟨slot, hslot, hinv⟩ := h.slot
  have hu := h.knows j u hj
  have hplace := places_of_getElem? OnceCall.place hid
  have hready : w.shared.state = .ready → (t.access w.shared r).1 = w.shared := by
    intro hready
    refine access_away ?_ (by rw [hready]; nofun) r
    by_contra haway
    rw [hinv.claimed id (by rwa [hplace])] at hslot
    cases hslot with
    | claimed hinit =>
      rw [hready] at hinit
      cases hinit
  cases u with
  | store op v =>
    have hfiller : places OnceCall.place w.tasks j ≠ .away := by
      rw [places_of_getElem? _ hj]
      nofun
    have haway : t.place = .away := by
      by_contra haway
      exact hne (hinv.one j id hfiller (by rwa [hplace]))
    rw [hinv.claimed j hfiller] at hslot
    cases hslot with
    | claimed hinit =>
      rw [access_away haway (by rw [hinit]; nofun)]
      exact hu
  | read =>
    rwa [hready hu]
  | ended result =>
    cases result with
    | reference value =>
      rwa [hready hu.1]
    | setOk | completed =>
      rwa [hready hu]
    | _ => trivial
  | _ => trivial

theorem onceInv_step (w : OnceWorld α) (e : OnceEvent α) (h : OnceInv w) : OnceInv (onceStep w e) := by
  obtain ⟨slot, hslot, hinv⟩ := h.slot
  unfold onceStep
  rcases w.step_cases (onceThreads α) e with ⟨d, hd⟩ | ⟨request, -, hr⟩ | ⟨id, t, r, -, hid, hr⟩
  · rw [hd]
    exact ⟨h.slot, h.knows⟩
  · rw [hr]
    have haway : request.start.place = .away ∧ request.start.Knows w.shared := by
      cases request with
      | get => exact ⟨rfl, trivial⟩
      | fill op => cases op <;> exact ⟨rfl, trivial⟩
    refine ⟨⟨slot, hslot, ?_⟩, fun j u hj => ?_⟩
    · change slot.Inv w.shared.made (places OnceCall.place (w.tasks ++ [request.start]))
      rwa [places_append _ haway.1]
    · change (w.tasks ++ [request.start])[j]? = some u at hj
      rw [List.getElem?_append] at hj
      split at hj
      · exact h.knows j u hj
      · cases List.mem_singleton.1 (List.mem_of_getElem? hj)
        exact haway.2
  · rw [hr]
    obtain ⟨hknows, slot', hslot', hmove⟩ := access_move hslot (h.knows id t hid) (hinv.claims hid) r
    rw [← places_of_getElem? OnceCall.place hid] at hmove
    refine ⟨⟨slot', hslot', ?_⟩, fun j u hj => ?_⟩
    · change slot'.Inv _ (places OnceCall.place (w.tasks.set id (t.access w.shared r).2))
      rw [places_set _ hid]
      exact hinv.move hmove
    · change (w.tasks.set id (t.access w.shared r).2)[j]? = some u at hj
      by_cases hne : j = id
      · rw [hne, List.getElem?_set_self (List.getElem?_eq_some_iff.1 hid).1] at hj
        cases hj
        exact hknows
      · rw [List.getElem?_set_ne (Ne.symm hne)] at hj
        exact h.others hid hj hne r

theorem onceInv_run (es : List (OnceEvent α)) : OnceInv (run onceStep (OnceWorld.new : OnceWorld α) es) :=
  run_keeps OnceInv onceInv_step es _ ⟨⟨.vacant, .vacant rfl, Slot.inv_vacant⟩, nofun⟩

/-! ## Cells that nobody initialises -/

def Stuck (w : OnceWorld α) : Prop := w.shared.state = .init ∧ ∀ t ∈ w.tasks, t.place = .away

def Panics (w : OnceWorld α) : OnceEvent α → Prop
  | .resume id none => ∃ op, w.tasks[id]? = some (.running op)
  | _ => False

theorem not_stuck_iff {slot : Slot α} (h : w.shared.Holds slot) :
    ¬ Stuck w ↔ slot.Attended (places OnceCall.place w.tasks) := by
  have hinit : slot = .claimed ↔ w.shared.state = .init := by
    cases h with
    | vacant h | filled h _ => simp [h]
    | claimed h => simp [h]
  unfold Slot.Attended Stuck
  rw [hinit, not_and]
  refine imp_congr_right fun _ => ⟨fun hsome => ?_, ?_⟩
  · by_contra hnone
    refine hsome fun t ht => ?_
    obtain ⟨i, hi⟩ := List.mem_iff_getElem?.1 ht
    rw [← places_of_getElem? OnceCall.place hi]
    by_contra hne
    exact hnone ⟨i, hne⟩
  · rintro ⟨i, hi⟩ hall
    cases ht : w.tasks[i]? with
    | none =>
      rw [places, ht] at hi
      exact hi rfl
    | some t =>
      rw [places_of_getElem? _ ht] at hi
      exact hi (hall t (List.mem_of_getElem? ht))

theorem panics_iff {id : Nat} (hid : w.tasks[id]? = some t) (r : Option α) :
    Panics w (.resume id r) ↔ t.place = .building ∧ (t.access w.shared r).2.place = .away := by
  cases t with
  | running op =>
    cases r with
    | none => exact ⟨fun _ => ⟨rfl, rfl⟩, fun _ => ⟨op, hid⟩⟩
    | some v => cases op <;> exact ⟨(fun h => h.elim), fun h => by cases h.2⟩
  | write op v =>
    cases r with
    | none => simp [Panics, hid, OnceCall.access, OnceCall.place]
    | some v => exact ⟨(fun h => h.elim), fun h => by cases h.2⟩
  | _ => cases r <;> simp [Panics, hid, OnceCall.place]

theorem not_stuck_step (h : OnceInv w) (hw : ¬ Stuck w) (e : OnceEvent α) : ¬ Stuck (onceStep w e) ↔ ¬ Panics w e := by
  obtain ⟨slot, hslot, hinv⟩ := h.slot
  cases e with
  | wait d => exact ⟨fun _ hp => hp, fun _ => hw⟩
  | call request =>
    refine ⟨fun _ hp => hp, fun _ hs => hw ⟨hs.1, fun t ht => hs.2 t (List.mem_append_left _ ht)⟩⟩
  | resume id r =>
    cases hid : w.tasks[id]? with
    | none =>
      have hsame : onceStep w (.resume id r) = w := by simp only [onceStep, World.step, hid]
      rw [hsame]
      refine ⟨fun _ hp => ?_, fun _ => hw⟩
      cases r with
      | none =>
        obtain ⟨op, hop⟩ := hp
        rw [hid] at hop
        cases hop
      | some v => exact hp
    | some t =>
      obtain ⟨-, slot', hslot', hmove⟩ := access_move hslot (h.knows id t hid) (hinv.claims hid) r
      have hplace := places_of_getElem? OnceCall.place hid
      rw [← hplace] at hmove
      have hshared : (onceStep w (.resume id r)).shared.Holds slot' := by
        simp only [onceStep, World.step, hid]
        exact hslot'
      have htasks : (onceStep w (.resume id r)).tasks = w.tasks.set id (t.access w.shared r).2 := by
        simp only [onceStep, World.step, hid]
        rfl
      rw [not_stuck_iff hshared, htasks, places_set _ hid, panics_iff hid r, ← hplace]
      exact Slot.attended_move_iff hinv ((not_stuck_iff hslot).1 hw) hmove

def OnceReturned.Observes (c : OnceCell α) : OnceReturned α → Prop
  | .reference value => ∃ v, value = some v ∧ c.made = [v]
  | .setOk => ∃ v, c.made = [v]
  | .completed => ∃ v, c.made = [v]
  | _ => True

theorem OnceInv.observes (h : OnceInv w) {id : Nat} {r : OnceReturned α}
    (hid : w.tasks[id]? = some (.ended r)) : r.Observes w.shared := by
  obtain ⟨slot, hslot, hinv⟩ := h.slot
  have hknows := h.knows id _ hid
  have hready : w.shared.state = .ready → ∃ v, w.shared.value = some v ∧ w.shared.made = [v] := by
    intro hready
    cases hslot with
    | vacant h | claimed h =>
      rw [hready] at h
      cases h
    | @filled v _ hv => exact ⟨v, hv, hinv.filled v rfl⟩
  cases r with
  | reference value =>
    obtain ⟨v, hv, hmade⟩ := hready hknows.1
    exact ⟨v, hknows.2.trans hv, hmade⟩
  | setOk | completed =>
    obtain ⟨v, -, hmade⟩ := hready hknows
    exact ⟨v, hmade⟩
  | _ => trivial

/-- **One-time initialisation.** Over every interleaving of any number of calls, at most one value is ever put into the
cell, every reference returned refers to it and every completed call comes after it. And the cell is never in the state
`INIT` with no initialiser running, exactly when no initialiser panics. -/
theorem once_initialised_iff {α : Type} (es : List (OnceEvent α)) :
    (∀ es₁, es₁ <+: es →
      let w : OnceWorld α := run onceStep OnceWorld.new es₁
      w.shared.made.length ≤ 1 ∧
        ∀ (id : Nat) (r : OnceReturned α), w.tasks[id]? = some (.ended r) → r.Observes w.shared) ∧
    ((∀ es₁, es₁ <+: es → ¬ Stuck (run onceStep (OnceWorld.new : OnceWorld α) es₁)) ↔
      Along onceStep (fun w e => ¬ Panics w e) OnceWorld.new es) := by
  refine ⟨fun es₁ _ => ?_, ?_⟩
  · obtain ⟨slot, -, hinv⟩ := (onceInv_run es₁).slot
    exact ⟨hinv.once, fun id r hid => (onceInv_run es₁).observes hid⟩
  · exact run_always_iff_of_inv OnceInv (fun w e h _ => onceInv_step w e h) (fun w e h hw => not_stuck_step h hw e) es _
      (onceInv_run []) (fun h => by cases h.1)

end

/-- **A panic leaves the cell in `INIT`**: the next caller of `get_or_init` spins, and a `set` is turned down. -/
theorem once_panicked_initialiser :
    let w : OnceWorld Nat := run onceStep OnceWorld.new
      [.call (.fill .getOrInit), .resume 0 none, .resume 0 none, .resume 0 none, .call (.fill .getOrInit),
        .call (.fill (.set 7)), .resume 1 none, .resume 1 none, .resume 1 none, .resume 2 none]
    Stuck w ∧ w.tasks = [.ended .panicked, .spin .getOrInit, .ended (.setErr 7)] := by
  refine ⟨⟨rfl, ?_⟩, rfl⟩
  decide

end TailscaleVita.Sync
