import TailscaleVita.Chan
/-!
# ChanWake — who is told that a channel is closed (`vita-chan/src/lib.rs`)

The last handle of a side is dropped without the lock: the count goes to zero, and then those asleep on the other side
are woken. A call looks at that count with the lock and then goes to sleep; in between the drop can run in full, and
its notification finds nobody asleep.
-/
namespace TailscaleVita.Chan

open Function List

section

variable {α : Type}

def Call.Notifies (side : Side) : Call α → Prop
  | .active op _ _ (.moved _) => op.side.other = side
  | .active op _ _ (.notify _) => op.side.other = side
  | .closing side' => side'.other = side
  | _ => False

/-- A wakeup is lost: a `send` or a `recv` is asleep, cannot go on, the other side is gone, and no notification is
still to come. -/
def Lost (cap : Option Nat) (s : Shared α) : Prop :=
  ∃ (c : Nat) (op : Op α) (h : Nat), s.calls[c]? = some (.active op h .block .parked) ∧ Blocked cap s.queue op.side ∧
    s.count op.side.other = 0 ∧ ∀ k ∈ s.calls, ¬ k.Notifies op.side

/-- A call goes to sleep in time: the other side is still there, or the drop that ended it has yet to notify. -/
def ParksInTime (s : Shared α) : Step α → Prop
  | .advance c _ _ =>
    ∀ (op : Op α) (h : Nat), s.calls[c]? = some (.active op h .block .waiting) → s.count op.side.other = 0 →
      .closing op.side.other ∈ s.calls
  | _ => True

def Told (s : Shared α) : Prop :=
  ∀ (c : Nat) (op : Op α) (h : Nat), s.calls[c]? = some (.active op h .block .parked) → s.count op.side.other = 0 →
    .closing op.side.other ∈ s.calls

variable {cap : Option Nat} {s : Shared α}

theorem not_lost_of_told (h : Told s) : ¬ Lost cap s := by
  rintro ⟨c, op, hd, hk, -, hzero, hnone⟩
  have hmem := h c op hd hk hzero
  exact hnone _ hmem (by cases op <;> rfl)

/-! ## What a step does to those asleep -/

structure Calm (s s' : Shared α) : Prop where
  parked : ∀ (c : Nat) (op : Op α) (h : Nat), s'.calls[c]? = some (.active op h .block .parked) →
    s.calls[c]? = some (.active op h .block .parked)
  closing : ∀ side : Side, .closing side ∈ s.calls → .closing side ∈ s'.calls
  count : ∀ side, s'.count side = 0 → s.count side = 0

theorem Calm.told {s' : Shared α} (h : Calm s s') (ht : Told s) : Told s' :=
  fun c op hd hk hzero => h.closing _ (ht c op hd (h.parked c op hd hk) (h.count _ hzero))

theorem Calm.refl (s : Shared α) : Calm s s := ⟨fun _ _ _ hk => hk, fun _ hm => hm, fun _ hz => hz⟩

theorem Calm.trans {s1 s2 s3 : Shared α} (h1 : Calm s1 s2) (h2 : Calm s2 s3) : Calm s1 s3 :=
  ⟨fun c op h hk => h1.parked c op h (h2.parked c op h hk), fun side hm => h2.closing side (h1.closing side hm),
    fun side hz => h1.count side (h2.count side hz)⟩

variable {c : Nat}

theorem mem_calls_set {k k' x : Call α} (hk : s.calls[c]? = some k) (hx : x ∈ s.calls) (hne : x ≠ k) :
    x ∈ s.calls.set c k' := by
  obtain ⟨i, hi⟩ := mem_iff_getElem?.1 hx
  have hic : i ≠ c := by
    rintro rfl
    rw [hk] at hi
    exact hne (Option.some.inj hi).symm
  exact mem_of_getElem? ((calls_set hk k' x i).2 (.inr ⟨hic, hi⟩))

def Call.isDrop : Call α → Bool
  | .closing _ => true
  | _ => false

def Call.isAsleep : Call α → Bool
  | .active _ _ _ .parked => true
  | _ => false

theorem calm_put {k k' : Call α} {lock : Option Nat} (hk : s.calls[c]? = some k) (hdrop : k.isDrop = false)
    (hawake : k'.isAsleep = false) : Calm s (s.put c k' lock) where
  parked i op h hi := by
    rcases (calls_set hk k' _ i).1 hi with ⟨-, rfl⟩ | ⟨-, hi⟩
    · cases hawake
    · exact hi
  closing side hm := by
    refine mem_calls_set hk hm ?_
    rintro rfl
    cases hdrop
  count _ hz := hz

theorem told_put (ht : Told s) {k k' : Call α} (hk : s.calls[c]? = some k) (lock : Option Nat)
    (hdrop : k.isDrop = false := by rfl) (hawake : k'.isAsleep = false := by rfl) : Told (s.put c k' lock) :=
  (calm_put hk hdrop hawake).told ht

theorem calm_wake (s : Shared α) (t elapsed : Nat) : Calm s (s.wake t elapsed) := by
  unfold Shared.wake
  split
  next op h w hk => exact calm_put hk rfl rfl
  · exact Calm.refl s

theorem calm_notifyOne (s : Shared α) (side : Side) (pick : Nat) (elapsed : Nat → Nat) :
    Calm s (s.notifyOne side pick elapsed) := by
  unfold Shared.notifyOne
  split
  · exact Calm.refl s
  · exact calm_wake s _ _

theorem calm_wakes (elapsed : Nat → Nat) : ∀ (ts : List Nat) (s : Shared α),
    Calm s (ts.foldl (fun s t => s.wake t (elapsed t)) s)
  | [], s => Calm.refl s
  | t :: ts, s => (calm_wake s t (elapsed t)).trans (calm_wakes elapsed ts (s.wake t (elapsed t)))

theorem not_parked_of_wakes (elapsed : Nat → Nat) {op : Op α} {h : Nat} : ∀ {ts : List Nat} {s : Shared α},
    c ∈ ts → (ts.foldl (fun s t => s.wake t (elapsed t)) s).calls[c]? ≠ some (.active op h .block .parked)
  | t :: ts, s, hmem => by
    rw [foldl_cons]
    rcases mem_cons.1 hmem with rfl | hmem
    · intro hk
      have hafter := (calm_wakes elapsed ts (s.wake c (elapsed c))).parked c op h hk
      unfold Shared.wake at hafter
      split at hafter
      next op' h' w hk' =>
        rw [calls_put_self hk'] at hafter
        cases (Call.active.inj (Option.some.inj hafter)).2.2.2
      next hnot => exact hnot op h .block hafter
    · exact not_parked_of_wakes elapsed hmem

theorem not_parked_of_notifyAll {side : Side} {elapsed : Nat → Nat} {op : Op α} {h : Nat}
    (hk : (s.notifyAll side elapsed).calls[c]? = some (.active op h .block .parked)) : op.side ≠ side := by
  rintro rfl
  have hbefore := (calm_wakes elapsed (s.sleepers op.side) s).parked c op h hk
  have hmem : c ∈ s.sleepers op.side := by
    unfold Shared.sleepers
    rw [mem_filter, mem_range]
    refine ⟨(List.getElem?_eq_some_iff.1 hbefore).1, ?_⟩
    unfold Shared.isParked
    rw [hbefore]
    exact decide_eq_true rfl
  exact not_parked_of_wakes elapsed hmem hk

theorem Side.other_other (side : Side) : side.other.other = side := by cases side <;> rfl

theorem told_advance (ht : Told s) (c pick : Nat) (elapsed : Nat → Nat)
    (hok : ParksInTime s (.advance c pick elapsed)) : Told (advance cap s c pick elapsed) := by
  unfold Chan.advance
  split <;> try rename_i hk
  · split
    · exact told_put ht hk _
    · exact ht
  · split <;> exact told_put ht hk _
  · split
    · split <;> exact told_put ht hk _
    · exact told_put ht hk s.lock
  · split
    · exact told_put ht hk _
    · exact told_put ht hk s.lock
  · split
    · exact told_put ht hk _
    · split <;> exact told_put ht hk _
  · -- a call goes to sleep
    rename_i op hd w
    intro i op' h' hi hzero
    have hclosing : .closing op'.side.other ∈ s.calls := by
      rcases (calls_set hk _ _ i).1 hi with ⟨-, he⟩ | ⟨-, hi⟩
      · cases he
        exact hok op hd hk hzero
      · exact ht i op' h' hi hzero
    exact mem_calls_set hk hclosing nofun
  · exact told_put ht hk _
  next op hd w x => exact (calm_notifyOne _ _ _ _).told (told_put ht hk _ rfl (by cases op <;> rfl))
  · -- a drop of a last handle notifies
    rename_i side
    intro i op h hi hzero
    have hside : op.side ≠ side.other := not_parked_of_notifyAll hi
    have hcalm := calm_wakes elapsed ((s.put c .closed s.lock).sleepers side.other) (s.put c .closed s.lock)
    rcases (calls_set hk _ _ i).1 (hcalm.parked i op h hi) with ⟨-, he⟩ | ⟨-, hold⟩
    · cases he
    · have hclosing := ht i op h hold (hcalm.count _ hzero)
      refine hcalm.closing _ (mem_calls_set hk hclosing (fun he => hside ?_))
      rw [← Call.closing.inj he, Side.other_other]
  · exact ht

theorem told_step (hinv : Inv cap s) (ht : Told s) (e : Step α) (hok : ParksInTime s e) : Told (step cap s e) := by
  cases e with
  | call op hd w =>
    rw [step]
    split
    · refine Calm.told ⟨fun c op' h hk => ?_, fun side hm => mem_append_left _ hm, fun _ hz => hz⟩ ht
      rcases (calls_append _ _ c).1 hk with hk | ⟨-, he⟩
      · exact hk
      · cases he
    · exact ht
  | clone side hd new =>
    rw [step]
    split
    · refine Calm.told (s := s) ⟨fun _ _ _ hk => hk, fun _ hm => hm, fun side' hz => ?_⟩ ht
      change update s.count side _ side' = 0 at hz
      by_cases hside : side' = side
      · rw [hside, update_self] at hz
        cases hz
      · rwa [update_of_ne hside] at hz
    · exact ht
  | drop side hd =>
    rw [step]
    split
    next hmem =>
      intro c op h hk hzero
      have hold : s.calls[c]? = some (.active op h .block .parked) := by
        rcases (calls_append _ _ c).1 hk with hk | ⟨-, he⟩
        · exact hk
        · split at he <;> cases he
      change update s.count side _ op.side.other = 0 at hzero
      by_cases hside : op.side.other = side
      · rw [hside, update_self] at hzero
        have hpos : 0 < s.count side := by
          rw [hinv.counts side]
          exact Finset.card_pos.2 ⟨hd, hmem.1⟩
        have hone : s.count side = 1 := by omega
        rw [hside]
        rw [if_pos hone]
        exact mem_append_right _ mem_cons_self
      · rw [update_of_ne hside] at hzero
        exact mem_append_left _ (ht c op h hold hzero)
    · exact ht
  | advance c pick elapsed => exact told_advance ht c pick elapsed hok
  | wake c elapsed => exact (calm_wake s c elapsed).told ht

/-! ## Exactly when no wakeup is lost -/

theorem closing_of_notifies (hinv : Inv cap s) {k : Call α} {side : Side} (hk : k ∈ s.calls) (hn : k.Notifies side)
    (hzero : s.count side.other = 0) : k = .closing side.other := by
  obtain ⟨i, hi⟩ := mem_iff_getElem?.1 hk
  have hnone : ∀ hd, k.uses side.other hd ≠ true := by
    intro hd hu
    have hmem := (hinv.call i k hi).borrows _ hd hu
    rw [hinv.counts] at hzero
    rw [Finset.card_eq_zero.1 hzero] at hmem
    exact absurd hmem (Finset.notMem_empty hd)
  unfold Call.Notifies at hn
  split at hn
  next op hd w x =>
    rw [← hn, Side.other_other] at hnone
    exact absurd (decide_eq_true ⟨rfl, rfl⟩) (hnone hd)
  next op hd w x =>
    rw [← hn, Side.other_other] at hnone
    exact absurd (decide_eq_true ⟨rfl, rfl⟩) (hnone hd)
  · rw [← hn, Side.other_other]
  · exact absurd hn not_false

theorem lost_of_late (hinv : Inv cap s) {e : Step α} (hlate : ¬ ParksInTime s e) : Lost cap (step cap s e) := by
  cases e with
  | advance c pick elapsed =>
    unfold ParksInTime at hlate
    push Not at hlate
    obtain ⟨op, hd, hk, hzero, hnone⟩ := hlate
    have hstep : step cap s (.advance c pick elapsed) = s.put c (.active op hd .block .parked) none := by
      change advance cap s c pick elapsed = _
      unfold advance
      rw [hk]
    have hblocked : Blocked cap s.queue op.side := by
      have hknows := (hinv.call c _ hk).knows
      cases op <;> exact hknows
    rw [hstep]
    refine ⟨c, op, hd, calls_put_self hk _ _, hblocked, hzero, fun k hmem hn => ?_⟩
    rcases mem_or_eq_of_mem_set hmem with hmem | rfl
    · rw [closing_of_notifies hinv hmem hn hzero] at hmem
      exact hnone hmem
    · exact hn
  | call op hd w | clone side hd new | drop side hd | wake c elapsed => exact absurd trivial hlate

/-- **When no disconnect wakeup is lost**: along a run of any channel no `send` and no `recv` is left asleep, with the
other side gone and no notification to come, exactly when every call that goes to sleep does so in time. -/
theorem no_lost_wakeup_iff (cap : Option Nat) (steps : List (Step α)) :
    (∀ steps₁, steps₁ <+: steps → ¬ Lost cap (run (step cap) {} steps₁)) ↔
      Along (step cap) ParksInTime {} steps := by
  have hkeep : ∀ (s : Shared α) e, Inv cap s ∧ Told s → ParksInTime s e →
      Inv cap (step cap s e) ∧ Told (step cap s e) :=
    fun s e h hok => ⟨step_inv h.1 e, told_step h.1 h.2 e hok⟩
  have hstep : ∀ (s : Shared α) e, Inv cap s ∧ Told s → ¬ Lost cap s →
      (¬ Lost cap (step cap s e) ↔ ParksInTime s e) := by
    intro s e h _
    refine ⟨fun hnot => ?_, fun hok => not_lost_of_told (hkeep s e h hok).2⟩
    by_contra hlate
    exact hnot (lost_of_late h.1 hlate)
  have htold : Told ({} : Shared α) := fun c op hd hk => by cases hk
  exact run_always_iff_of_inv _ hkeep hstep steps {} ⟨inv_new cap, htold⟩ (not_lost_of_told htold)

def lateReceiver : List (Step Nat) :=
  List.flatten [.call .recv 0 .block :: Chan.steps 0 3, .drop .sender 0 :: Chan.steps 1 1, Chan.steps 0 1]

/-- **A `recv` sleeps for ever.** -/
theorem recv_misses_disconnect : Lost unbounded (run (step unbounded) {} lateReceiver) := by
  refine ⟨0, .recv, 0, by decide +kernel, ?_, by decide +kernel, ?_⟩
  · change _ = []
    decide +kernel
  · intro k hmem
    have hcalls : (run (step unbounded) {} lateReceiver).calls = [.active .recv 0 .block .parked, .closed] := by
      decide +kernel
    rw [hcalls] at hmem
    rcases mem_cons.1 hmem with rfl | hmem
    · exact not_false
    · rw [mem_singleton.1 hmem]
      exact not_false

end

end TailscaleVita.Chan
