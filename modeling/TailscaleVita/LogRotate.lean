import Mathlib.Data.Finset.Card
import Mathlib.Data.Finset.Range
import Mathlib.Logic.Function.Basic
import TailscaleVita.LogWriter
/-!
# LogRotate — the log file and the files it is rotated to (`vita-log/src/writer.rs`)

Processes come and go on a disk that works, and each may be killed between any two of its calls. The count of a process
begins at zero and the files stay, so a process that finds a log writes past the limit; and the shift makes room for
one file more than is to be kept.
-/
namespace TailscaleVita.Log

open Function List

/-! ## Processes on a disk -/

structure Proc where
  written : Nat := 0
  work : Option (LogProg (Option Nat))
  carries : Bool

/-- The disk and the process on it, with what has been rotated so far, the latest first, and what was written of
the latest line. -/
structure LogState where
  disk : Slot → Option Bytes := fun _ => none
  history : List Bytes := []
  lineLen : Nat := 0
  proc : Option Proc := none

inductive LogEvent where
  | start
  | line (line : Bytes)
  | reopen
  | tick
  | kill

namespace LogState

def active (s : LogState) : Bytes := (s.disk .active).getD []

def put (s : LogState) (slot : Slot) (content : Option Bytes) : LogState :=
  { s with disk := update s.disk slot content }

def moved (s : LogState) (source target : Slot) : LogState :=
  match s.disk source, s.disk target with
  | some content, none =>
    { (s.put source none).put target (some content) with
      history := if source = .active then content :: s.history else s.history }
  | _, _ => s

def call (s : LogState) : (c : LogCall) → c.Answer × LogState
  | .openAppend => (true, s.put .active (some s.active))
  | .write line => (true, { s.put .active (some (s.active ++ line)) with lineLen := line.length })
  | .newline => ((), { s.put .active (some (s.active ++ [10])) with lineLen := s.lineLen + 1 })
  | .remove slot => ((), s.put slot none)
  | .rename source target => ((), s.moved source target)

def begin (s : LogState) (work : (written : Nat) → LogProg (Option Nat)) : LogState :=
  match s.proc with
  | some ⟨written, none, carries⟩ => { s with proc := some ⟨written, some (work written), carries⟩ }
  | _ => s

def tick (s : LogState) : LogState :=
  match s.proc with
  | some ⟨_, some (.done (some n)), carries⟩ => { s with proc := some ⟨n, none, carries⟩ }
  | some ⟨_, some (.done none), _⟩ => { s with proc := none }
  | some ⟨written, some (.call c next), carries⟩ =>
    { (s.call c).2 with
      proc := some ⟨written, some (next (s.call c).1), carries && !decide (c = .rename .active (.numbered 0))⟩ }
  | _ => s

def step (cfg : LogConfig) (s : LogState) : LogEvent → LogState
  | .start =>
    match s.proc with
    | none => { s with proc := some ⟨0, some (openLog cfg), decide (s.active ≠ [])⟩ }
    | some _ => s
  | .line line => s.begin (fun written => logLine cfg written line)
  | .reopen => s.begin reopenAppend
  | .tick => s.tick
  | .kill => { s with proc := none }

/-! ## What is to hold -/

def rotated (cfg : LogConfig) (disk : Slot → Option Bytes) : List Bytes :=
  (List.range (cfg.keepFiles + 1)).filterMap (fun i => disk (.numbered i))

def Bounded (cfg : LogConfig) (s : LogState) : Prop := s.active.length < cfg.rotateBytes + s.lineLen

def Kept (cfg : LogConfig) (s : LogState) : Prop :=
  ∀ files : Finset Nat, (∀ i ∈ files, s.disk (.numbered i) ≠ none) → files.card ≤ cfg.keepFiles

def Ordered (cfg : LogConfig) (s : LogState) : Prop := rotated cfg s.disk <+: s.history

def nextCall (s : LogState) : Option LogCall :=
  match s.proc with
  | some ⟨_, some (.call c _), _⟩ => some c
  | _ => none

/-- The rename that ends a rotation puts the log in `.0`, as the latest of those rotated. -/
def Archives (s : LogState) : LogEvent → Prop
  | .tick => s.nextCall = some (.rename .active (.numbered 0)) →
      s.tick.disk (.numbered 0) = s.disk .active ∧ s.tick.history = (s.disk .active).toList ++ s.history
  | _ => True

def Overfills (cfg : LogConfig) (s : LogState) : LogEvent → Prop
  | .tick => (∃ line, s.nextCall = some (.write line)) ∧ (∃ p, s.proc = some p ∧ p.carries = true) ∧
      cfg.rotateBytes ≤ s.active.length
  | _ => False

def Overkeeps (cfg : LogConfig) (s : LogState) : LogEvent → Prop
  | .tick => s.nextCall = some (.rename .active (.numbered 0)) ∧ s.disk .active ≠ none ∧
      ∀ i, 1 ≤ i → i ≤ cfg.keepFiles → s.disk (.numbered i) ≠ none
  | _ => False

end LogState

section

variable {cfg : LogConfig} {disk : Slot → Option Bytes}

open LogState (rotated)

theorem rotated_congr {disk' : Slot → Option Bytes}
    (h : ∀ i ≤ cfg.keepFiles, disk' (.numbered i) = disk (.numbered i)) :
    rotated cfg disk' = rotated cfg disk :=
  filterMap_congr (fun i hi => h i (Nat.lt_succ_iff.1 (mem_range.1 hi)))

theorem rotated_remove_last : rotated cfg (update disk (.numbered cfg.keepFiles) none) <+: rotated cfg disk := by
  unfold rotated
  rw [range_succ, filterMap_append, filterMap_append]
  have hfront : (List.range cfg.keepFiles).filterMap
      (fun i => update disk (.numbered cfg.keepFiles) none (.numbered i)) =
      (List.range cfg.keepFiles).filterMap (fun i => disk (.numbered i)) := by
    refine filterMap_congr (fun i hi => update_of_ne ?_ _ _)
    have := mem_range.1 hi
    simp only [ne_eq, Slot.numbered.injEq]
    omega
  rw [hfront, filterMap_cons_none (by rw [update_self]), filterMap_nil, append_nil]
  exact prefix_append _ _

theorem rotated_shift {j : Nat} (hj : j + 1 ≤ cfg.keepFiles) (hfree : disk (.numbered (j + 1)) = none) {content : Bytes}
    (hcontent : disk (.numbered j) = some content) :
    rotated cfg (update (update disk (.numbered j) none) (.numbered (j + 1)) (some content)) =
      rotated cfg disk := by
  have hother : ∀ i, i ≠ j → i ≠ j + 1 →
      update (update disk (.numbered j) none) (.numbered (j + 1)) (some content) (.numbered i) =
        disk (.numbered i) := by
    intro i hne hne'
    rw [update_of_ne (by simpa using hne'), update_of_ne (by simpa using hne)]
  obtain ⟨m, hm⟩ : ∃ m, cfg.keepFiles + 1 = j + (m + 2) := ⟨cfg.keepFiles + 1 - (j + 2), by omega⟩
  have hsplit : List.range (cfg.keepFiles + 1) =
      List.range j ++ j :: (j + 1) :: (List.range m).map (fun i => j + (i + 2)) := by
    rw [hm, range_add, range_succ_eq_map, range_succ_eq_map]
    simp
  unfold rotated
  rw [hsplit, filterMap_append, filterMap_append]
  congr 1
  · refine filterMap_congr (fun i hi => ?_)
    have := mem_range.1 hi
    exact hother i (by omega) (by omega)
  · have hold : update (update disk (.numbered j) none) (.numbered (j + 1)) (some content)
        (.numbered j) = none := by
      rw [update_of_ne (by simp), update_self]
    simp only [filterMap_cons, hold, update_self, hcontent, hfree]
    refine congrArg (content :: ·) (filterMap_congr (fun i hi => ?_))
    obtain ⟨k, -, rfl⟩ := mem_map.1 hi
    exact hother _ (by omega) (by omega)

theorem rotated_archive (hfree : disk (.numbered 0) = none) (content : Bytes) :
    rotated cfg (update (update disk .active none) (.numbered 0) (some content)) =
      content :: rotated cfg disk := by
  unfold rotated
  rw [range_succ_eq_map]
  simp only [filterMap_cons, update_self, hfree]
  refine congrArg (content :: ·) (filterMap_congr (fun i hi => ?_))
  obtain ⟨k, -, rfl⟩ := mem_map.1 hi
  rw [update_of_ne (by simp), update_of_ne (by simp)]

end

/-! ## The disk, stage by stage -/

def Stage.Fits (cfg : LogConfig) (s : LogState) (carries : Bool) : Stage → Prop
  | .ready n => carries = false → s.active.length = n
  | .vacating j | .filling j => j ≤ cfg.keepFiles ∧ s.disk (.numbered j) = none
  | .reopening => s.disk .active = none
  | .broken => False

structure LogState.Sound (cfg : LogConfig) (s : LogState) : Prop where
  none_above : ∀ i, cfg.keepFiles < i → s.disk (.numbered i) = none
  ordered : s.Ordered cfg

def Proc.Fits (cfg : LogConfig) (s : LogState) (p : Proc) : Prop :=
  match p.work with
  | none => p.written < cfg.rotateBytes ∧ Stage.Fits cfg s p.carries (.ready p.written)
  | some m => ∃ stage, m.Tracks (logging cfg) (fun stage r => ∀ n ∈ r, Counts cfg stage n) stage ∧
      stage.Fits cfg s p.carries

section

variable {cfg : LogConfig} {s : LogState} {carries : Bool}

theorem sound_of_disk {s' : LogState} (hs : s.Sound cfg) (hdisk : ∀ i, s'.disk (.numbered i) = s.disk (.numbered i))
    (hhistory : s'.history = s.history) : s'.Sound cfg := by
  refine ⟨fun i hi => (hdisk i).trans (hs.none_above i hi), ?_⟩
  have hordered := hs.ordered
  unfold LogState.Ordered at hordered ⊢
  rwa [rotated_congr (fun i _ => hdisk i), hhistory]

theorem put_self (slot : Slot) (content : Option Bytes) : (s.put slot content).disk slot = content := by
  simp [LogState.put]

theorem put_ne {slot slot' : Slot} (h : slot' ≠ slot) (content : Option Bytes) :
    (s.put slot content).disk slot' = s.disk slot' := by
  simp [LogState.put, h]

variable (content : Bytes)

theorem active_put : (s.put .active (some content)).active = content := by
  unfold LogState.active
  rw [put_self, Option.getD_some]

theorem sound_of_active {s' : LogState} (hs : s.Sound cfg) {content : Bytes}
    (hdisk : s'.disk = (s.put .active (some content)).disk) (hhistory : s'.history = s.history) : s'.Sound cfg :=
  sound_of_disk hs (fun i => by rw [hdisk]; exact put_ne (by simp) _) hhistory

theorem moved_of_source {source target : Slot} (h : s.disk source = none) : s.moved source target = s := by
  unfold LogState.moved
  rw [h]

theorem remove_last_sound (hs : s.Sound cfg) : (s.put (.numbered cfg.keepFiles) none).Sound cfg := by
  refine ⟨fun i hi => ?_, rotated_remove_last.trans hs.ordered⟩
  rw [put_ne (by simp only [ne_eq, Slot.numbered.injEq]; omega)]
  exact hs.none_above i hi

theorem put_none {slot : Slot} (h : s.disk slot = none) : s.put slot none = s := by
  unfold LogState.put
  rw [← h, update_eq_self]

theorem shift_sound (hs : s.Sound cfg) {j : Nat} (hj : j + 1 ≤ cfg.keepFiles)
    (hfree : s.disk (.numbered (j + 1)) = none) :
    (s.moved (.numbered j) (.numbered (j + 1))).Sound cfg ∧
      (s.moved (.numbered j) (.numbered (j + 1))).disk (.numbered j) = none := by
  cases hcontent : s.disk (.numbered j) with
  | none =>
    rw [moved_of_source hcontent]
    exact ⟨hs, hcontent⟩
  | some content =>
    have hmoved : s.moved (.numbered j) (.numbered (j + 1)) =
        (s.put (.numbered j) none).put (.numbered (j + 1)) (some content) := by
      unfold LogState.moved
      rw [hcontent, hfree]
      rfl
    rw [hmoved]
    refine ⟨⟨fun i hi => ?_, ?_⟩, ?_⟩
    · rw [put_ne (by simp only [ne_eq, Slot.numbered.injEq]; omega),
        put_ne (by simp only [ne_eq, Slot.numbered.injEq]; omega)]
      exact hs.none_above i hi
    · have hsame := rotated_shift hj hfree hcontent
      have hordered := hs.ordered
      unfold LogState.Ordered at hordered ⊢
      rwa [← hsame] at hordered
    · rw [put_ne (by simp), put_self]

def LogState.archived (s : LogState) (content : Bytes) : LogState :=
  { (s.put .active none).put (.numbered 0) (some content) with history := content :: s.history }

theorem archived_disk :
    (s.archived content).disk = ((s.put .active none).put (.numbered 0) (some content)).disk := rfl

theorem moved_active {content : Bytes} (hactive : s.disk .active = some content) (hfree : s.disk (.numbered 0) = none) :
    s.moved .active (.numbered 0) = s.archived content := by
  unfold LogState.moved LogState.archived
  rw [hactive, hfree]
  rfl

theorem archived_numbered_succ (i : Nat) :
    (s.archived content).disk (.numbered (i + 1)) = s.disk (.numbered (i + 1)) := by
  rw [archived_disk, put_ne (by simp), put_ne (by simp)]

theorem archive_sound (hs : s.Sound cfg) (hfree : s.disk (.numbered 0) = none) :
    (s.moved .active (.numbered 0)).Sound cfg ∧ (s.moved .active (.numbered 0)).disk .active = none := by
  cases hactive : s.disk .active with
  | none =>
    rw [moved_of_source hactive]
    exact ⟨hs, hactive⟩
  | some content =>
    rw [moved_active hactive hfree]
    refine ⟨⟨fun i hi => ?_, ?_⟩, ?_⟩
    · obtain ⟨k, rfl⟩ : ∃ k, i = k + 1 := ⟨i - 1, by omega⟩
      rw [archived_numbered_succ]
      exact hs.none_above _ hi
    · show LogState.rotated cfg (update (update s.disk _ _) _ _) <+: content :: s.history
      rw [rotated_archive hfree]
      exact cons_prefix_cons.2 ⟨rfl, hs.ordered⟩
    · rw [archived_disk, put_ne (by simp), put_self]

variable {stage : Stage} {c : LogCall}

inductive Due (cfg : LogConfig) (s : LogState) (carries : Bool) : Stage → LogCall → Prop where
  | opens {n} (h : carries = false → s.active.length = n) : Due cfg s carries (.ready n) .openAppend
  | reopens (h : s.disk .active = none) : Due cfg s carries .reopening .openAppend
  | writes {n line} (h : carries = false → s.active.length = n) (hn : n < cfg.rotateBytes) :
      Due cfg s carries (.ready n) (.write line)
  | ends {n} (h : carries = false → s.active.length = n) : Due cfg s carries (.ready n) .newline
  | begins {n} : Due cfg s carries (.ready n) (.remove (.numbered cfg.keepFiles))
  | clears {j} (hj : j ≤ cfg.keepFiles) (hfree : s.disk (.numbered j) = none) :
      Due cfg s carries (.vacating j) (.remove (.numbered j))
  | shifts {j} (hj : j + 1 ≤ cfg.keepFiles) (hfree : s.disk (.numbered (j + 1)) = none) :
      Due cfg s carries (.filling (j + 1)) (.rename (.numbered j) (.numbered (j + 1)))
  | archives (hfree : s.disk (.numbered 0) = none) : Due cfg s carries (.filling 0) (.rename .active (.numbered 0))

theorem due (hfits : stage.Fits cfg s carries) (hmay : (logging cfg).may stage c) : Due cfg s carries stage c := by
  cases stage with
  | ready n =>
    cases c with
    | openAppend => exact .opens hfits
    | write line => exact .writes hfits hmay
    | newline => exact .ends hfits
    | remove slot =>
      obtain rfl : slot = .numbered cfg.keepFiles := hmay
      exact .begins
    | rename _ _ => exact hmay.elim
  | vacating j =>
    cases c with
    | remove slot =>
      obtain rfl : slot = .numbered j := hmay
      exact .clears hfits.1 hfits.2
    | _ => exact hmay.elim
  | filling j =>
    cases c with
    | rename source target =>
      cases j with
      | zero =>
        obtain ⟨rfl, rfl⟩ := hmay
        exact .archives hfits.2
      | succ j =>
        obtain ⟨rfl, rfl⟩ := hmay
        exact .shifts hfits.1 hfits.2
    | _ => cases j <;> exact hmay.elim
  | reopening =>
    cases c with
    | openAppend => exact .reopens hfits
    | _ => exact hmay.elim
  | broken => exact hfits.elim

theorem call_sound (hs : s.Sound cfg) (h : Due cfg s carries stage c) :
    (s.call c).2.Sound cfg ∧ ((logging cfg).after stage c (s.call c).1).Fits cfg (s.call c).2
      (carries && !decide (c = .rename .active (.numbered 0))) := by
  cases h with
  | opens h =>
    refine ⟨sound_of_active hs rfl rfl, fun hfresh => ?_⟩
    rw [show (s.call .openAppend).2.active = s.active from active_put _]
    exact h (by simpa using hfresh)
  | reopens h =>
    refine ⟨sound_of_active hs rfl rfl, fun _ => ?_⟩
    rw [show (s.call .openAppend).2.active = s.active from active_put _, LogState.active, h]
    rfl
  | @writes n line h =>
    refine ⟨sound_of_active hs rfl rfl, fun hfresh => ?_⟩
    rw [show (s.call (.write line)).2.active = s.active ++ line from active_put (s := s) _, length_append,
      h (by simpa using hfresh)]
  | ends h =>
    refine ⟨sound_of_active hs rfl rfl, fun hfresh => ?_⟩
    rw [show (s.call .newline).2.active = s.active ++ [10] from active_put (s := s) _, length_append,
      h (by simpa using hfresh), length_singleton]
  | begins => exact ⟨remove_last_sound hs, Nat.le_refl _, put_self _ _⟩
  | @clears j hj hfree =>
    rw [show (s.call (.remove (.numbered j))).2 = s from put_none hfree]
    exact ⟨hs, hj, hfree⟩
  | shifts hj hfree =>
    obtain ⟨hsound, hvacant⟩ := shift_sound hs hj hfree
    exact ⟨hsound, Nat.le_of_succ_le hj, hvacant⟩
  | archives hfree => exact archive_sound hs hfree

/-! ## The bounds, call by call -/

theorem moved_lineLen (source target : Slot) : (s.moved source target).lineLen = s.lineLen := by
  unfold LogState.moved
  split <;> rfl

theorem moved_numbered_active (j k : Nat) : (s.moved (.numbered j) (.numbered k)).active = s.active := by
  unfold LogState.moved LogState.active
  split
  · show (((s.put _ _).put _ _).disk .active).getD [] = _
    rw [put_ne (by simp), put_ne (by simp)]
  · rfl

theorem call_bounded (hs : s.Sound cfg) (hdue : Due cfg s carries stage c) (h : s.Bounded cfg) :
    (s.call c).2.Bounded cfg ↔ ¬ ((∃ line, c = .write line) ∧ carries = true ∧ cfg.rotateBytes ≤ s.active.length) := by
  unfold LogState.Bounded at h ⊢
  have hother : (∀ line, c ≠ .write line) →
      ¬ ((∃ line, c = .write line) ∧ carries = true ∧ cfg.rotateBytes ≤ s.active.length) :=
    fun hne hwrites => hwrites.1.elim hne
  have hremove : ∀ j, (s.call (.remove (.numbered j))).2.active = s.active :=
    fun j => congrArg (·.getD []) (put_ne (by simp) _)
  cases hdue with
  | opens _ | reopens _ =>
    refine iff_of_true ?_ (hother nofun)
    rwa [show (s.call .openAppend).2.active = s.active from active_put _]
  | @writes n line hfresh hn =>
    rw [show (s.call (.write line)).2.active = s.active ++ line from active_put (s := s) _, length_append]
    show _ < cfg.rotateBytes + line.length ↔ _
    constructor
    · rintro hlt ⟨-, -, hfull⟩
      omega
    · intro hnot
      cases carries with
      | false =>
        -- a log that the process began itself has as many bytes as it counts
        have := hfresh rfl
        omega
      | true =>
        have : ¬ cfg.rotateBytes ≤ s.active.length := fun hfull => hnot ⟨⟨line, rfl⟩, rfl, hfull⟩
        omega
  | ends _ =>
    refine iff_of_true ?_ (hother nofun)
    rw [show (s.call .newline).2.active = s.active ++ [10] from active_put (s := s) _, length_append,
      length_singleton]
    show _ < cfg.rotateBytes + (s.lineLen + 1)
    omega
  | begins | clears _ _ => exact iff_of_true (by rw [hremove]; exact h) (hother nofun)
  | @shifts j _ _ =>
    refine iff_of_true ?_ (hother nofun)
    show (s.moved (.numbered j) (.numbered (j + 1))).active.length < _ + (s.moved _ _).lineLen
    rwa [moved_lineLen, moved_numbered_active]
  | archives hfree =>
    refine iff_of_true ?_ (hother nofun)
    show (s.moved .active (.numbered 0)).active.length < _ + (s.moved _ _).lineLen
    unfold LogState.active
    rw [moved_lineLen, (archive_sound hs hfree).2]
    exact Nat.lt_of_lt_of_le cfg.rotates (Nat.le_add_right _ _)

theorem kept_iff (hs : s.Sound cfg) : s.Kept cfg ↔ ∃ j ≤ cfg.keepFiles, s.disk (.numbered j) = none := by
  constructor
  · intro hkept
    by_contra hall
    have hcard := hkept (Finset.range (cfg.keepFiles + 1)) (fun i hi hnone =>
      hall ⟨i, Nat.lt_succ_iff.1 (Finset.mem_range.1 hi), hnone⟩)
    rw [Finset.card_range] at hcard
    omega
  · rintro ⟨j, hj, hnone⟩ files hfiles
    have hsub : files ⊆ (Finset.range (cfg.keepFiles + 1)).erase j := by
      intro i hi
      refine Finset.mem_erase.2 ⟨?_, Finset.mem_range.2 (Nat.lt_succ_iff.2 ?_)⟩
      · rintro rfl
        exact hfiles i hi hnone
      · by_contra hlt
        exact hfiles i hi (hs.none_above i (Nat.not_le.1 hlt))
    calc files.card ≤ ((Finset.range (cfg.keepFiles + 1)).erase j).card := Finset.card_le_card hsub
      _ = cfg.keepFiles := by
        rw [Finset.card_erase_of_mem (Finset.mem_range.2 (by omega)), Finset.card_range, Nat.add_sub_cancel]

theorem call_kept (hs : s.Sound cfg) (hdue : Due cfg s carries stage c) (h : s.Kept cfg) :
    (s.call c).2.Kept cfg ↔ ¬ (c = .rename .active (.numbered 0) ∧ s.disk .active ≠ none ∧
      ∀ i, 1 ≤ i → i ≤ cfg.keepFiles → s.disk (.numbered i) ≠ none) := by
  rw [kept_iff (call_sound hs hdue).1]
  rw [kept_iff hs] at h
  have hlog : ∀ {s' : LogState} {content : Bytes}, s'.disk = (s.put .active (some content)).disk →
      ∃ j ≤ cfg.keepFiles, s'.disk (.numbered j) = none := by
    intro s' content hdisk
    obtain ⟨j, hj, hnone⟩ := h
    refine ⟨j, hj, ?_⟩
    rwa [hdisk, put_ne (by simp)]
  cases hdue with
  | opens _ | reopens _ | writes _ _ | ends _ => exact iff_of_true (hlog rfl) (fun hn => by cases hn.1)
  | begins => exact iff_of_true ⟨cfg.keepFiles, Nat.le_refl _, put_self _ _⟩ (fun hn => by cases hn.1)
  | @clears j hj _ => exact iff_of_true ⟨j, hj, put_self _ _⟩ (fun hn => by cases hn.1)
  | @shifts j hj hfree =>
    exact iff_of_true ⟨j, Nat.le_of_succ_le hj, (shift_sound hs hj hfree).2⟩ (fun hn => by cases hn.1)
  | archives hfree =>
    show (∃ j ≤ cfg.keepFiles, (s.moved .active (.numbered 0)).disk (.numbered j) = none) ↔ _
    cases hactive : s.disk .active with
    | none =>
      rw [moved_of_source hactive]
      exact iff_of_true h (fun hn => hn.2.1 rfl)
    | some content =>
      rw [moved_active hactive hfree]
      constructor
      · rintro ⟨j, hj, hnone⟩ ⟨-, -, hall⟩
        cases j with
        | zero =>
          rw [archived_disk, put_self] at hnone
          cases hnone
        | succ j =>
          rw [archived_numbered_succ] at hnone
          exact hall (j + 1) (by omega) hj hnone
      · intro hnot
        by_contra hno
        refine hnot ⟨rfl, Option.some_ne_none _, fun i hlow hi hnone => hno ⟨i, hi, ?_⟩⟩
        obtain ⟨k, rfl⟩ : ∃ k, i = k + 1 := ⟨i - 1, by omega⟩
        rwa [archived_numbered_succ]

end

structure LogState.Inv (cfg : LogConfig) (s : LogState) : Prop where
  sound : s.Sound cfg
  fits : ∀ p, s.proc = some p → p.Fits cfg s

def LogState.Rotates (cfg : LogConfig) (s : LogState) : Prop := s.Bounded cfg ∧ s.Kept cfg ∧ s.Ordered cfg

section

variable {cfg : LogConfig} {s : LogState}

theorem inv_begin (h : s.Inv cfg) {work : Nat → LogProg (Option Nat)}
    (hwork : ∀ {written : Nat}, written < cfg.rotateBytes →
      (work written).Tracks (logging cfg) (fun stage r => ∀ n ∈ r, Counts cfg stage n) (.ready written)) :
    (s.begin work).Inv cfg := by
  unfold LogState.begin
  split
  next written carries hproc =>
    refine ⟨⟨h.sound.none_above, h.sound.ordered⟩, fun p hp => ?_⟩
    cases hp
    obtain ⟨hless, hready⟩ := h.fits _ hproc
    exact ⟨.ready written, hwork hless, hready⟩
  · exact h

theorem inv_tick (h : s.Inv cfg) : s.tick.Inv cfg := by
  unfold LogState.tick
  split
  next written n carries hproc =>
    refine ⟨⟨h.sound.none_above, h.sound.ordered⟩, fun p hp => ?_⟩
    cases hp
    obtain ⟨stage, hends, hfits⟩ := h.fits _ hproc
    rcases hends n rfl with rfl | ⟨rfl, hless⟩
    · exact hfits.elim
    · exact ⟨hless, hfits⟩
  · exact ⟨⟨h.sound.none_above, h.sound.ordered⟩, fun p hp => by cases hp⟩
  next written c next carries hproc =>
    obtain ⟨stage, hends, hfits⟩ := h.fits _ hproc
    obtain ⟨hsound, hnext⟩ := call_sound h.sound (due hfits hends.1)
    refine ⟨⟨hsound.none_above, hsound.ordered⟩, fun p hp => ?_⟩
    cases hp
    exact ⟨_, hends.2 _, hnext⟩
  · exact h

theorem inv_step (s : LogState) (e : LogEvent) (h : s.Inv cfg) : (s.step cfg e).Inv cfg := by
  cases e with
  | start =>
    simp only [LogState.step]
    split
    · refine ⟨⟨h.sound.none_above, h.sound.ordered⟩, fun p hp => ?_⟩
      cases hp
      refine ⟨.ready 0, openLog_tracks, fun hfresh => ?_⟩
      rw [decide_eq_false_iff_not, not_not] at hfresh
      exact congrArg List.length hfresh
    · exact h
  | line line => exact inv_begin h (fun hless => logLine_tracks hless line)
  | reopen => exact inv_begin h reopenAppend_tracks
  | tick => exact inv_tick h
  | kill => exact ⟨⟨h.sound.none_above, h.sound.ordered⟩, fun p hp => by cases hp⟩

theorem nextCall_eq {c : LogCall} {written : Nat} {next : c.Answer → LogProg (Option Nat)} {carries : Bool}
    (h : s.proc = some ⟨written, some (.call c next), carries⟩) : s.nextCall = some c := by
  unfold LogState.nextCall
  rw [h]

theorem rotates_step (s : LogState) (e : LogEvent) (hinv : s.Inv cfg) (h : s.Rotates cfg) :
    (s.step cfg e).Rotates cfg ↔ ¬ s.Overfills cfg e ∧ ¬ s.Overkeeps cfg e := by
  have hbegin : ∀ work, (s.begin work).Rotates cfg := fun work => by
    unfold LogState.begin
    split <;> exact h
  cases e with
  | start =>
    refine iff_of_true ?_ ⟨id, id⟩
    simp only [LogState.step]
    split <;> exact h
  | line line | reopen => exact iff_of_true (hbegin _) ⟨id, id⟩
  | kill => exact iff_of_true h ⟨id, id⟩
  | tick =>
    show s.tick.Rotates cfg ↔ _
    have hquiet : s.nextCall = none → ¬ s.Overfills cfg .tick ∧ ¬ s.Overkeeps cfg .tick := by
      intro hnone
      refine ⟨fun hover => ?_, fun hover => ?_⟩
      · obtain ⟨⟨line, hline⟩, -⟩ := hover
        rw [hnone] at hline
        cases hline
      · obtain ⟨hcall, -⟩ := hover
        rw [hnone] at hcall
        cases hcall
    unfold LogState.tick
    split
    next hproc => exact iff_of_true h (hquiet (by unfold LogState.nextCall; rw [hproc]))
    next hproc => exact iff_of_true h (hquiet (by unfold LogState.nextCall; rw [hproc]))
    next written c next carries hproc =>
      obtain ⟨stage, hends, hfits⟩ := hinv.fits _ hproc
      have hdue := due hfits hends.1
      have hbounded := call_bounded hinv.sound hdue h.1
      have hkept := call_kept hinv.sound hdue h.2.1
      have hordered := (call_sound hinv.sound hdue).1.ordered
      have hfills : s.Overfills cfg .tick ↔
          (∃ line, c = .write line) ∧ carries = true ∧ cfg.rotateBytes ≤ s.active.length := by
        unfold LogState.Overfills
        rw [nextCall_eq hproc, hproc]
        simp
      have hkeeps : s.Overkeeps cfg .tick ↔ c = .rename .active (.numbered 0) ∧ s.disk .active ≠ none ∧
          ∀ i, 1 ≤ i → i ≤ cfg.keepFiles → s.disk (.numbered i) ≠ none := by
        unfold LogState.Overkeeps
        rw [nextCall_eq hproc, Option.some.injEq]
      rw [hfills, hkeeps, ← hbounded, ← hkept]
      exact ⟨fun hr => ⟨hr.1, hr.2.1⟩, fun hr => ⟨hr.1, hr.2, hordered⟩⟩
    next hno =>
      refine iff_of_true h (hquiet ?_)
      unfold LogState.nextCall
      split
      next written c next carries hproc => exact absurd hproc (hno _ _ _ _)
      · rfl

theorem archives_step (s : LogState) (e : LogEvent) (h : s.Inv cfg) : s.Archives e := by
  cases e with
  | tick =>
    intro hnext
    unfold LogState.nextCall at hnext
    split at hnext
    next written c next carries hproc =>
      cases hnext
      obtain ⟨stage, hends, hfits⟩ := h.fits _ hproc
      have htick : s.tick = { s.moved .active (.numbered 0) with proc := s.tick.proc } := by
        unfold LogState.tick
        rw [hproc]
        rfl
      rw [htick]
      cases due hfits hends.1 with
      | archives hfree =>
        cases hactive : s.disk .active with
        | none =>
          rw [moved_of_source hactive]
          exact ⟨hfree, rfl⟩
        | some content =>
          rw [moved_active hactive hfree]
          exact ⟨@put_self (s.put .active none) (.numbered 0) _, rfl⟩
    · cases hnext
  | start | line line | reopen | kill => trivial

variable (cfg)

/-- **The log and its rotated files.** On an empty disk, whatever processes come and log and are killed anywhere, the
rotated files are the latest ones in the order of their age, and a rotation puts the log in `.0`; and the log is shorter
than the limit and a line, with no more rotated files than are to be kept, exactly when no process writes on to a log
that it found and that is full, and no log is rotated when as many files are there already. -/
theorem log_rotation_iff (es : List LogEvent) :
    (∀ es₁, es₁ <+: es → (run (LogState.step cfg) {} es₁).Ordered cfg) ∧
    Along (LogState.step cfg) LogState.Archives {} es ∧
    ((∀ es₁, es₁ <+: es → (run (LogState.step cfg) {} es₁).Rotates cfg) ↔
      Along (LogState.step cfg) (fun s e => ¬ s.Overfills cfg e ∧ ¬ s.Overkeeps cfg e) {} es) := by
  have hempty : ∀ i, LogState.disk {} (.numbered i) = none := fun _ => rfl
  have hordered : LogState.Ordered cfg {} := by
    unfold LogState.Ordered LogState.rotated
    rw [filterMap_eq_nil_iff.2 (fun i _ => hempty i)]
  have hsound : LogState.Sound cfg {} := ⟨fun i _ => rfl, hordered⟩
  have hinv : LogState.Inv cfg {} := ⟨hsound, fun p hp => by cases hp⟩
  have hrotates : LogState.Rotates cfg {} :=
    ⟨Nat.lt_of_lt_of_le cfg.rotates (Nat.le_add_right _ _), (kept_iff hsound).2 ⟨0, Nat.zero_le _, rfl⟩, hordered⟩
  refine ⟨fun es₁ _ => ?_, ?_, ?_⟩
  · exact (run_keeps (LogState.Inv cfg) inv_step es₁ {} hinv).sound.ordered
  · exact along_of_inv (LogState.Inv cfg) (fun s e hi _ => inv_step s e hi) (fun s e hi _ => archives_step s e hi) es {}
      hinv (along_true (LogState.step cfg) es {})
  · exact run_always_iff_of_inv (LogState.Inv cfg) (fun s e hi _ => inv_step s e hi) rotates_step es {} hinv hrotates

end

def tinyLog : LogConfig := ⟨1, 1, by decide, by decide⟩

def twoRotations : List LogEvent := .start :: List.replicate 9 .tick ++ .line [33, 10] :: List.replicate 7 .tick

theorem log_rotation_two_files :
    let s := run (LogState.step tinyLog) {} twoRotations
    s.disk (.numbered 0) = some [33, 10] ∧ s.disk (.numbered 1) = some startMarker ∧ tinyLog.keepFiles = 1 := by
  decide +kernel

end TailscaleVita.Log
