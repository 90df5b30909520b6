import TailscaleVita.RtIdentity
import TailscaleVita.VitaCrash
/-!
# CtlPersist — files that survive a crash (`ts-control/src/persist.rs`)

`atomic_write` writes beside its target and renames. The rename of `vita_fs` is two system calls: it removes the target
and then renames. Between the two there is neither the old file nor the new one, and the key store takes a missing key
for one that was never made (`atomic_write_crash_iff`).
-/
namespace TailscaleVita.Ctl

open Fs List Finmap

open Fs (Name Node Files Io SceCall SceProg)

/-- The path of a file: its last component, and what `Path::parent` makes of the rest, which may be empty or `/`. -/
structure FilePath where
  dir : Text
  file : Text
  dir_form : dir = ['/'] ∨ dir.getLast? ≠ some '/' ∧ ¬ ['/', '.'] <:+ dir
  file_ne : file ≠ []
  file_form : '/' ∉ file ∧ file ≠ ['.']

def tmpSuffix (file : Text) (pid : Nat) : Text :=
  (if file = "..".toList then "/file.tmp.".toList else ".tmp.".toList) ++ (toString pid).toList

namespace FilePath

def text (p : FilePath) : Text := join p.dir p.file

def tmp (p : FilePath) (pid : Nat) : Text := p.text ++ tmpSuffix p.file pid

def name (p : FilePath) : Name := utf8 (norm p.text)

def tmpName (p : FilePath) (pid : Nat) : Name := utf8 (norm (p.tmp pid))

end FilePath

def atomicWrite (p : FilePath) (pid : Nat) (bytes : Bytes) : SceProg Bool := do
  if ← createDirAll p.dir then
    if ← writeFile (p.tmp pid) bytes then renameFile (p.tmp pid) p.text
    else return false
  else return false

/-! ## The protocol of a replacement -/

inductive Stage where
  | before
  | writing (rest : Bytes)
  | ended

def Replaces (tmp target : Name) (stage : Stage) : SceCall → Prop
  | .remove n => n = tmp ∧ stage = .before ∨ n = target ∧ stage = .writing []
  | .openAppend n => n = tmp ∧ stage = .before
  | .write n data => n = tmp ∧ stage = .writing data
  | .rename source n => source = tmp ∧ n = target ∧ stage = .writing []
  | .mkdir _ | .sync _ | .close _ => False

def Apart (tmp target : Name) (c : SceCall) : Prop := ¬ c.Touches tmp ∧ ¬ c.Touches target

def writing (tmp target : Name) (new : Bytes) : Protocol SceCall SceCall.Answer Stage where
  may stage c := Apart tmp target c ∨ Replaces tmp target stage c
  after stage
    | .openAppend n => fun opened => if n ≠ tmp then stage else if opened then .writing new else .ended
    | .write n data => fun k => if n ≠ tmp then stage else if k = 0 then .ended else .writing (data.drop k)
    | .rename source _ => fun _ => if source ≠ tmp then stage else .ended
    | .mkdir _ | .remove _ | .sync _ | .close _ => fun _ => stage

section

variable {tmp target : Name} {new : Bytes}

theorem after_of_apart (stage : Stage) : ∀ {c : SceCall}, Apart tmp target c → ∀ a,
    (writing tmp target new).after stage c a = stage
  | .openAppend _, h, _ => if_pos h.1
  | .write _ _, h, _ => if_pos h.1
  | .rename _ _, h, _ => if_pos (fun he => h.1 (.inl he))
  | .mkdir _, _, _ => rfl
  | .remove _, _, _ => rfl
  | .sync _, _, _ => rfl
  | .close _, _, _ => rfl

theorem after_rename (stage : Stage) (a : Bool) :
    (writing tmp target new).after stage (.rename tmp target) a = .ended := if_neg (not_not_intro rfl)

theorem tracks_of_apart {α : Type} {m : SceProg α} (h : m.Meets (Apart tmp target) (fun _ => True)) (stage : Stage) :
    m.Tracks (writing tmp target new) (fun stage' _ => stage' = stage ∧ True) stage :=
  Prog.Tracks.of_meets (p := writing tmp target new) (fun _ hc => ⟨.inl hc, after_of_apart stage hc⟩) h

theorem writeLoop_tracks : ∀ (turns : Nat) (buf : Bytes), (writeLoop tmp turns buf).Tracks (writing tmp target new)
    (fun stage ok => ok = true → stage = .writing []) (.writing buf)
  | 0, buf => fun hok => by rw [of_decide_eq_true hok]
  | turns + 1, buf => by
    unfold writeLoop
    by_cases hbuf : buf = []
    · rw [if_pos hbuf, hbuf]
      exact fun _ => rfl
    · rw [if_neg hbuf]
      refine ⟨.inr ⟨rfl, rfl⟩, fun k => ?_⟩
      show Prog.Tracks _ _ (if tmp ≠ tmp then _ else if k = 0 then Stage.ended else Stage.writing (buf.drop k))
        (if k = 0 then _ else _)
      rw [if_neg (not_not_intro rfl)]
      by_cases hk : k = 0
      · rw [if_pos hk, if_pos hk]
        exact ⟨.inl ⟨not_false, not_false⟩, fun _ hok => absurd hok Bool.false_ne_true⟩
      · rw [if_neg hk, if_neg hk]
        exact writeLoop_tracks turns (buf.drop k)

theorem sceWrite_tracks : (sceWrite tmp new).Tracks (writing tmp target new)
    (fun stage ok => ok = true → stage = .writing []) .before := by
  refine ⟨.inr (.inl ⟨rfl, rfl⟩), fun _ => ⟨.inr ⟨rfl, rfl⟩, fun opened => ?_⟩⟩
  show Prog.Tracks _ _ (if tmp ≠ tmp then _ else if opened = true then Stage.writing new else Stage.ended) _
  rw [if_neg (not_not_intro rfl)]
  cases opened with
  | false => exact fun hok => absurd hok Bool.false_ne_true
  | true =>
    refine Prog.Tracks.bind (t := Stage.writing new) (m := writeLoop tmp new.length new)
      (writeLoop_tracks new.length new) (fun stage ok hstage => ?_)
    cases ok with
    | false => exact fun hok => absurd hok Bool.false_ne_true
    | true => exact ⟨.inl ⟨not_false, not_false⟩, fun _ => ⟨.inl ⟨not_false, not_false⟩, fun _ _ => hstage rfl⟩⟩

theorem sceRename_tracks : (sceRename tmp target).Tracks (writing tmp target new) (fun _ _ => True) (.writing []) :=
  ⟨.inr (.inr ⟨rfl, rfl⟩), fun _ => ⟨.inr ⟨rfl, rfl, rfl⟩, fun _ => trivial⟩⟩

theorem writeFile_tracks (path : Text) : (writeFile path new).Tracks (writing (utf8 (norm path)) target new)
    (fun stage ok => ok = true → stage = .writing []) .before := by
  unfold writeFile
  cases hn : pathName path with
  | none => exact fun hok => absurd hok Bool.false_ne_true
  | some n =>
    rw [← pathName_eq hn]
    exact sceWrite_tracks

theorem renameFile_tracks (source path : Text) : (renameFile source path).Tracks
    (writing (utf8 (norm source)) (utf8 (norm path)) new) (fun _ _ => True) (.writing []) := by
  unfold renameFile
  split
  next n m hn hm =>
    rw [← pathName_eq hn, ← pathName_eq hm]
    exact sceRename_tracks
  · trivial

end

/-! ## The names of a write -/

theorem dropSlash_tmpSuffix (file : Text) (pid : Nat) : dropSlash (tmpSuffix file pid) ≠ [] := by
  unfold tmpSuffix
  split <;> exact cons_ne_nil _ _

section

variable (p : FilePath) (pid : Nat)

theorem FilePath.name_longer : (utf8 (norm p.dir)).length < p.name.length :=
  utf8_norm_join p.file_ne p.file_form.1 p.dir

theorem FilePath.tmpName_longer : p.name.length < (p.tmpName pid).length :=
  utf8_norm_longer (dropSlash_tmpSuffix p.file pid) p.text

theorem FilePath.name_ne_tmpName : p.name ≠ p.tmpName pid := fun h =>
  Nat.ne_of_lt (p.tmpName_longer pid) (congrArg List.length h)

end

theorem atomicWrite_tracks (p : FilePath) (pid : Nat) (new : Bytes) :
    (atomicWrite p pid new).Tracks (writing (p.tmpName pid) p.name new) (fun _ _ => True) .before := by
  have hdirs : (createDirAll p.dir).Meets (Apart (p.tmpName pid) p.name) (fun _ => True) :=
    (createDirAll_touches p.dir (p.name_longer.trans (p.tmpName_longer pid))).and
      (createDirAll_touches p.dir p.name_longer)
  refine (tracks_of_apart hdirs .before).ite ?_
  rintro _ ⟨rfl, -⟩
  refine (writeFile_tracks (p.tmp pid)).ite (fun stage hstage => ?_)
  rw [hstage rfl]
  exact renameFile_tracks (p.tmp pid) p.text

/-! ## A write cut short -/

abbrev Cut := SceProg Bool × Files

def Cut.step (s : Cut) (io : Io) : Cut := Prog.resume (sceIo io) s.1 s.2

def Intact (target : Name) (old : Option Node) (new : Bytes) (fs : Files) : Prop :=
  fs.lookup target = old ∨ fs.lookup target = some (.file new)

/-- The next call is not the removal of the target, if there is a file to remove. -/
def Spares (target : Name) (s : Cut) (io : Io) : Prop :=
  match s.1 with
  | .call (.remove n) _ => ¬ (n = target ∧ io.works = true ∧ ∃ c, s.2.lookup n = some (.file c))
  | _ => True

def Safe (target : Name) (new : Bytes) (s : Cut) (io : Io) : Prop :=
  Spares target s io ∧
  match s.1 with
  | .call (.rename source n) _ =>
    n = target → io.works = true → s.2.lookup n = none → ∀ node, s.2.lookup source = some node → node = .file new
  | _ => True

section

variable {tmp target : Name} {new : Bytes} {old : Option Node}

def Unchanged (target : Name) (old : Option Node) (new : Bytes) : Stage → Files → Prop
  | .ended, fs => Intact target old new fs
  | .before, fs | .writing _, fs => fs.lookup target = old

theorem intact_of_unchanged {stage : Stage} {fs : Files} (h : Unchanged target old new stage fs) :
    Intact target old new fs := by
  cases stage with
  | ended => exact h
  | before | writing rest => exact .inl h

theorem unchanged_frame {stage : Stage} {fs fs' : Files} (hf : fs'.lookup target = fs.lookup target)
    (h : Unchanged target old new stage fs) : Unchanged target old new stage fs' := by
  cases stage with
  | ended => exact h.imp hf.trans hf.trans
  | before | writing rest => exact hf.trans h

theorem unchanged_of_old {fs : Files} (h : fs.lookup target = old) (stage : Stage) :
    Unchanged target old new stage fs := by
  cases stage with
  | ended => exact .inl h
  | before | writing rest => exact h

def Keeps (tmp target : Name) (old : Option Node) (new : Bytes) (io : Io) (stage : Stage) (c : SceCall)
    (fs : Files) : Prop :=
  ∀ next : c.Answer → SceProg Bool,
    (Intact target old new (sceIo io c fs).2 ↔ Safe target new (.call c next, fs) io) ∧
    (Safe target new (.call c next, fs) io →
      Unchanged target old new ((writing tmp target new).after stage c (sceIo io c fs).1) (sceIo io c fs).2)

variable {io : Io} {stage : Stage} {fs : Files}

theorem keeps_of_unchanged {c : SceCall}
    (hsafe : ∀ next : c.Answer → SceProg Bool, Safe target new (.call c next, fs) io)
    (h : Unchanged target old new ((writing tmp target new).after stage c (sceIo io c fs).1) (sceIo io c fs).2) :
    Keeps tmp target old new io stage c fs := fun next =>
  ⟨iff_of_true (intact_of_unchanged h) (hsafe next), fun _ => h⟩

theorem keeps_of_apart : ∀ {c : SceCall}, Apart tmp target c → Unchanged target old new stage fs →
    Keeps tmp target old new io stage c fs := by
  intro c hc h
  refine keeps_of_unchanged (fun next => ?_) ?_
  · cases c with
    | remove n => exact ⟨fun hs => hc.2 hs.1, trivial⟩
    | rename source n => exact ⟨trivial, fun he => absurd (.inr he) hc.2⟩
    | _ => exact ⟨trivial, trivial⟩
  · rw [after_of_apart stage hc]
    exact unchanged_frame (lookup_sceIo_of_apart io hc.2 fs) h

theorem keeps_remove_target (h : fs.lookup target = old) :
    Keeps tmp target old new io (.writing []) (.remove target) fs := by
  by_cases hgone : io.works = true ∧ ∃ c, fs.lookup target = some (.file c)
  · -- the old file is gone, and the new one is not there yet
    obtain ⟨hw, c, hc⟩ := hgone
    have hlookup : (sceIo io (.remove target) fs).2.lookup target = none := by
      show (sceIoRemove { removes := io.works } target fs).2.lookup target = none
      unfold sceIoRemove
      rw [hc, hw]
      exact lookup_erase target fs
    have hlost : ∀ next, ¬ Safe target new (.call (.remove target) next, fs) io := fun next hs =>
      hs.1 ⟨rfl, hw, c, hc⟩
    refine fun next => ⟨iff_of_false (fun hi => ?_) (hlost next), fun hs => absurd hs (hlost next)⟩
    obtain hi | hi := hi
    · rw [hlookup, ← h, hc] at hi
      cases hi
    · rw [hlookup] at hi
      cases hi
  · have hsame : (sceIo io (.remove target) fs).2 = fs := by
      show (sceIoRemove { removes := io.works } target fs).2 = fs
      unfold sceIoRemove
      split
      next hw hc => exact absurd ⟨hw, _, hc⟩ hgone
      · rfl
    refine keeps_of_unchanged (fun next => ⟨fun hs => hgone hs.2, trivial⟩) ?_
    rwa [hsame]

theorem keeps_rename (h : fs.lookup target = old) :
    Keeps tmp target old new io (.writing []) (.rename tmp target) fs := by
  by_cases hmoves : io.works = true ∧ fs.lookup target = none ∧ ∃ node, fs.lookup tmp = some node
  · obtain ⟨hw, hnone, node, hnode⟩ := hmoves
    have hlookup : (sceIo io (.rename tmp target) fs).2.lookup target = some node := by
      simp only [sceIo, hw, hnode, hnone]
      exact lookup_insert _
    have hsafe : ∀ next, Safe target new (.call (.rename tmp target) next, fs) io ↔ node = .file new := fun next => by
      refine ⟨fun hs => hs.2 rfl hw hnone node hnode, fun hn => ⟨trivial, fun _ _ _ node' hnode' => ?_⟩⟩
      rw [hnode] at hnode'
      cases hnode'
      exact hn
    refine fun next => ⟨?_, fun hs => ?_⟩
    · rw [hsafe next]
      unfold Intact
      rw [hlookup, ← h, hnone]
      simp
    · rw [after_rename]
      exact .inr (by rw [hlookup, (hsafe next).1 hs])
  · have hsame : (sceIo io (.rename tmp target) fs).2 = fs := by
      simp only [sceIo]
      split
      next hw hnode hnone => exact absurd ⟨hw, hnone, _, hnode⟩ hmoves
      · rfl
    refine keeps_of_unchanged (fun next => ⟨trivial, fun _ hw hnone node hnode => ?_⟩) ?_
    · exact absurd ⟨hw, hnone, node, hnode⟩ hmoves
    · rw [hsame]
      exact unchanged_of_old h _

theorem sceIo_keeps (hne : target ≠ tmp) {c : SceCall} (hmay : (writing tmp target new).may stage c)
    (h : Unchanged target old new stage fs) : Keeps tmp target old new io stage c fs := by
  obtain hapart | hown := hmay
  · exact keeps_of_apart hapart h
  · cases c with
    | remove n =>
      obtain ⟨rfl, rfl⟩ | ⟨rfl, rfl⟩ := hown
      · exact keeps_of_unchanged (fun _ => ⟨fun hs => hne hs.1.symm, trivial⟩)
          (unchanged_frame (lookup_sceIo_of_apart io (c := .remove n) (Ne.symm hne) fs) h)
      · exact keeps_remove_target h
    | openAppend n =>
      obtain ⟨rfl, rfl⟩ := hown
      exact keeps_of_unchanged (fun _ => ⟨trivial, trivial⟩)
        (unchanged_of_old ((lookup_sceIo_of_apart io (c := .openAppend n) (Ne.symm hne) fs).trans h) _)
    | write n data =>
      obtain ⟨rfl, rfl⟩ := hown
      exact keeps_of_unchanged (fun _ => ⟨trivial, trivial⟩)
        (unchanged_of_old ((lookup_sceIo_of_apart io (c := .write n data) (Ne.symm hne) fs).trans h) _)
    | rename source n =>
      obtain ⟨rfl, rfl, rfl⟩ := hown
      exact keeps_rename h
    | mkdir n | sync n | close n => exact hown.elim

/-! ## What the temporary file holds -/

def Leftover (left : Bytes → Prop) (new content : Bytes) : Prop :=
  ∃ junk done, (junk = [] ∨ left junk) ∧ done <+: new ∧ content = junk ++ done

def TmpHolds (left : Bytes → Prop) (tmp : Name) (new : Bytes) : Stage → Files → Prop
  | .before, fs => ∀ content, fs.lookup tmp = some (.file content) → left content
  | .writing rest, fs =>
    ∃ junk done, (junk = [] ∨ left junk) ∧ new = done ++ rest ∧ fs.lookup tmp = some (.file (junk ++ done))
  | .ended, fs => ∀ content, fs.lookup tmp = some (.file content) → Leftover left new content

variable {left : Bytes → Prop}

theorem leftover_of_tmpHolds (h : TmpHolds left tmp new stage fs) {content : Bytes}
    (hc : fs.lookup tmp = some (.file content)) : Leftover left new content := by
  cases stage with
  | before => exact ⟨content, [], .inr (h content hc), nil_prefix, (append_nil content).symm⟩
  | writing rest =>
    obtain ⟨junk, done, hjunk, hnew, hlookup⟩ := h
    rw [hlookup] at hc
    cases hc
    exact ⟨junk, done, hjunk, ⟨rest, hnew.symm⟩, rfl⟩
  | ended => exact h content hc

theorem tmpHolds_frame {fs' : Files} (hf : fs'.lookup tmp = fs.lookup tmp) (h : TmpHolds left tmp new stage fs) :
    TmpHolds left tmp new stage fs' := by
  cases stage with
  | before => exact fun content hc => h content (hf.symm.trans hc)
  | writing rest =>
    obtain ⟨junk, done, hjunk, hnew, hlookup⟩ := h
    exact ⟨junk, done, hjunk, hnew, hf.trans hlookup⟩
  | ended => exact fun content hc => h content (hf.symm.trans hc)

theorem tmpHolds_write {data : Bytes} (h : TmpHolds left tmp new (.writing data) fs) :
    TmpHolds left tmp new ((writing tmp target new).after (.writing data) (.write tmp data)
      (sceIo io (.write tmp data) fs).1) (sceIo io (.write tmp data) fs).2 := by
  obtain ⟨junk, done, hjunk, hnew, hlookup⟩ := h
  simp only [sceIo, hlookup, writing, ne_eq, not_true_eq_false, if_false, append_assoc]
  have hover : TmpHolds left tmp new .ended (fs.insert tmp (.file (junk ++ (done ++ data.take io.wrote)))) := by
    intro content hc
    rw [lookup_insert] at hc
    cases hc
    refine ⟨junk, done ++ data.take io.wrote, hjunk, ?_, rfl⟩
    rw [hnew, prefix_append_right_inj]
    exact take_prefix io.wrote data
  split
  · split
    · exact hover
    · refine ⟨junk, done ++ data.take io.wrote, hjunk, ?_, lookup_insert fs⟩
      rw [append_assoc, hnew]
      congr 1
      rcases Nat.le_total io.wrote data.length with hle | hle
      · rw [Nat.min_eq_left hle, take_append_drop]
      · rw [Nat.min_eq_right hle, take_of_length_le hle, drop_length, append_nil]
  · exact hover

theorem sceIo_tmpHolds (hne : target ≠ tmp) {c : SceCall} (hmay : (writing tmp target new).may stage c)
    (h : TmpHolds left tmp new stage fs) :
    TmpHolds left tmp new ((writing tmp target new).after stage c (sceIo io c fs).1) (sceIo io c fs).2 := by
  obtain hapart | hown := hmay
  · rw [after_of_apart stage hapart]
    exact tmpHolds_frame (lookup_sceIo_of_apart io hapart.1 fs) h
  · cases c with
    | remove n =>
      obtain ⟨rfl, rfl⟩ | ⟨rfl, rfl⟩ := hown
      · intro content hc
        simp only [sceIo, sceIoRemove] at hc
        split at hc
        · rw [lookup_erase] at hc
          cases hc
        · exact h content hc
      · exact tmpHolds_frame (lookup_sceIo_of_apart io (c := .remove n) hne fs) h
    | openAppend n =>
      obtain ⟨rfl, rfl⟩ := hown
      simp only [sceIo, writing, ne_eq, not_true_eq_false, if_false]
      split
      · exact ⟨[], [], .inl rfl, rfl, lookup_insert fs⟩
      next content _ hlookup => exact ⟨content, [], .inr (h content hlookup), rfl, by rw [hlookup, append_nil]⟩
      · exact fun content hc => leftover_of_tmpHolds (show TmpHolds left n new .before fs from h) hc
    | write n data =>
      obtain ⟨rfl, rfl⟩ := hown
      exact tmpHolds_write h
    | rename source n =>
      obtain ⟨rfl, rfl, rfl⟩ := hown
      simp only [sceIo, writing, ne_eq, not_true_eq_false, if_false]
      intro content hc
      split at hc
      · rw [lookup_insert_of_ne _ (Ne.symm hne), lookup_erase] at hc
        cases hc
      · exact leftover_of_tmpHolds h hc
    | mkdir n | sync n | close n => exact hown.elim

theorem lookup_target (io : Io) (hne : target ≠ tmp) {c : SceCall} (hmay : (writing tmp target new).may stage c)
    (h : TmpHolds left tmp new stage fs) :
    (sceIo io c fs).2.lookup target = fs.lookup target ∨ (sceIo io c fs).2.lookup target = none ∨
    c = .rename tmp target ∧ ∃ junk, (junk = [] ∨ left junk) ∧
      (sceIo io c fs).2.lookup target = some (.file (junk ++ new)) := by
  obtain hapart | hown := hmay
  · exact .inl (lookup_sceIo_of_apart io hapart.2 fs)
  · cases c with
    | remove n =>
      obtain ⟨rfl, rfl⟩ | ⟨rfl, rfl⟩ := hown
      · exact .inl (lookup_sceIo_of_apart io (c := .remove n) hne.symm fs)
      · simp only [sceIo, sceIoRemove]
        split
        · exact .inr (.inl (lookup_erase n fs))
        · exact .inl rfl
    | openAppend n =>
      obtain ⟨rfl, rfl⟩ := hown
      exact .inl (lookup_sceIo_of_apart io (c := .openAppend n) hne.symm fs)
    | write n data =>
      obtain ⟨rfl, rfl⟩ := hown
      exact .inl (lookup_sceIo_of_apart io (c := .write n data) hne.symm fs)
    | rename source n =>
      obtain ⟨rfl, rfl, rfl⟩ := hown
      obtain ⟨junk, done, hjunk, hnew, hlookup⟩ := h
      simp only [sceIo]
      split
      next hnode _ =>
        rw [hlookup] at hnode
        cases hnode
        rw [append_nil] at hnew
        exact .inr (.inr ⟨trivial, junk, hjunk, by rw [lookup_insert, hnew]⟩)
      · exact .inl rfl
    | mkdir n | sync n | close n => exact hown.elim

theorem safe_iff_spares {s : Cut} (h : Prog.At (writing tmp target new) (TmpHolds (fun _ => False) tmp new) s) :
    Safe target new s io ↔ Spares target s io := by
  obtain ⟨m, fs⟩ := s
  refine ⟨And.left, fun hs => ⟨hs, ?_⟩⟩
  obtain ⟨stage, htracks, hholds⟩ := h
  cases m with
  | done ok => trivial
  | call c next =>
    cases c with
    | rename source n =>
      rintro rfl _ _ node hnode
      obtain hapart | ⟨rfl, -, rfl⟩ := htracks.1
      · exact absurd (.inr rfl) hapart.2
      · obtain ⟨junk, done, hjunk, hnew, hlookup⟩ := hholds
        rw [hnode, hjunk.resolve_right id] at hlookup
        rw [hnew, append_nil]
        exact Option.some.inj hlookup
    | _ => trivial

end

/-! ## The key store after a crash -/

open Rt (KeyFile Draw loadOrGeneratePriv)

def keyFile (fs : Files) (n : Name) : KeyFile :=
  match fs.lookup n with
  | none => .notFound
  | some .dir => .unreadable
  | some (.file bs) => .bytes bs

/-- What is to survive: the file is the old one or the new one, and a key that was in it, or was being written, is
the key that the store comes up with. -/
def Recovers (target : Name) (old : Option Node) (new : Bytes) (fs : Files) : Prop :=
  Intact target old new fs ∧
  ∀ key, old = some (.file key) → key.length = 32 → new.length = 32 → ∀ draw,
    loadOrGeneratePriv (keyFile fs target) draw = .ok (fromLeBytes 256 key) ∨
    loadOrGeneratePriv (keyFile fs target) draw = .ok (fromLeBytes 256 new)

theorem recovers_iff {target : Name} {old : Option Node} {new : Bytes} {fs : Files} :
    Recovers target old new fs ↔ Intact target old new fs := by
  refine ⟨And.left, fun h => ⟨h, ?_⟩⟩
  rintro key rfl hkey hnew draw
  unfold keyFile loadOrGeneratePriv
  obtain h | h := h
  · exact .inl (by rw [h]; exact if_pos hkey)
  · exact .inr (by rw [h]; exact if_pos hnew)

theorem cut_step_iff {tmp target : Name} {old : Option Node} {new : Bytes} (hne : target ≠ tmp) {s : Cut} (io : Io)
    (h : Prog.At (writing tmp target new) (Unchanged target old new) s) :
    (Recovers target old new (s.step io).2 ↔ Safe target new s io) ∧
    (Safe target new s io → Prog.At (writing tmp target new) (Unchanged target old new) (s.step io)) := by
  constructor
  · rw [recovers_iff]
    obtain ⟨m, fs⟩ := s
    obtain ⟨stage, htracks, hold⟩ := h
    cases m with
    | done ok => exact iff_of_true (intact_of_unchanged hold) ⟨trivial, trivial⟩
    | call c next => exact (sceIo_keeps hne htracks.1 hold next).1
  · intro hsafe
    refine h.resume (fun stage c next hcall hmay hold => (sceIo_keeps hne hmay hold next).2 ?_)
    rwa [← hcall]

/-- **When a write survives a crash**: wherever it is cut short and whichever calls fail, exactly when no call removes
the file that was there, or renames a temporary file that holds anything but the new content. If there was no temporary
file before, the second does not happen. -/
theorem atomic_write_crash_iff (p : FilePath) (pid : Nat) (new : Bytes) (fs : Files) (ios : List Io) :
    ((∀ cut, cut <+: ios →
        Recovers p.name (fs.lookup p.name) new (run Cut.step (atomicWrite p pid new, fs) cut).2) ↔
      Along Cut.step (Safe p.name new) (atomicWrite p pid new, fs) ios) ∧
    (Fs.Free fs (p.tmpName pid) →
      ((∀ cut, cut <+: ios →
          Recovers p.name (fs.lookup p.name) new (run Cut.step (atomicWrite p pid new, fs) cut).2) ↔
        Along Cut.step (Spares p.name) (atomicWrite p pid new, fs) ios)) := by
  have hne := p.name_ne_tmpName pid
  have hcrash := @run_always_iff_of_inv _ _ Cut.step _ (fun s => Recovers p.name (fs.lookup p.name) new s.2)
    (Prog.At (writing (p.tmpName pid) p.name new) (Unchanged p.name (fs.lookup p.name) new))
    (fun _ io h hsafe => (cut_step_iff hne io h).2 hsafe) (fun _ io h _ => (cut_step_iff hne io h).1)
    ios (atomicWrite p pid new, fs) ⟨.before, atomicWrite_tracks p pid new, rfl⟩ (recovers_iff.2 (.inl rfl))
  refine ⟨hcrash, fun hfree => hcrash.trans ?_⟩
  refine along_iff_of_inv (Prog.At (writing (p.tmpName pid) p.name new) (TmpHolds (fun _ => False) (p.tmpName pid) new))
    (fun s io h => h.resume (fun stage c next _ hmay hholds => sceIo_tmpHolds hne hmay hholds))
    (fun s io h => safe_iff_spares h) ios (atomicWrite p pid new, fs) ⟨.before, atomicWrite_tracks p pid new, hfree⟩

def nodePrivPath : FilePath where
  dir := "ux0:data/tailscale-vita".toList
  file := "node.priv".toList
  dir_form := by decide
  file_ne := by decide
  file_form := by decide

def upToRemoval : List Io := [{}, {}, {}, {}, { wrote := 32 }, {}, {}, {}]

/-- **The key that was there is lost**, and the next start draws a third one in silence. -/
theorem atomic_write_crash_lost :
    let old : Bytes := List.replicate 32 1
    let new : Bytes := List.replicate 32 2
    let before : Files := (∅ : Files).insert nodePrivPath.name (.file old)
    let after : Files := (run Cut.step (atomicWrite nodePrivPath 7 new, before) upToRemoval).2
    let draw : Draw := { key := 3 }
    after.lookup nodePrivPath.name = none ∧
    loadOrGeneratePriv (keyFile after nodePrivPath.name) draw = .ok draw.key ∧
    draw.key ≠ fromLeBytes 256 old ∧ draw.key ≠ fromLeBytes 256 new ∧
    ¬ Recovers nodePrivPath.name (before.lookup nodePrivPath.name) new after := by
  intro old new before after draw
  have hgone : after.lookup nodePrivPath.name = none := by decide +kernel
  have hbefore : before.lookup nodePrivPath.name = some (.file old) := lookup_insert _
  refine ⟨hgone, ?_, by decide +kernel, by decide +kernel, ?_⟩
  · unfold keyFile
    rw [hgone]
    rfl
  · rintro ⟨h | h, -⟩
    · rw [hgone, hbefore] at h
      cases h
    · rw [hgone] at h
      cases h

end TailscaleVita.Ctl
