import TailscaleVita.Calls
import TailscaleVita.VitaFs
/-!
# VitaCrash — `vita_fs` system call by system call (`vita-fs/src/vita.rs`)

The calls of the crate as programs over `sceIo`, so that they can be cut short between any two system calls, and a
write inside. Run to the end, `rename` is the call of `VitaFs`.
-/
namespace TailscaleVita.Fs

open List

inductive SceCall where
  | mkdir (n : Name)
  | remove (n : Name)
  | openAppend (n : Name)
  | write (n : Name) (data : Bytes)
  | sync (n : Name)
  | close (n : Name)
  | rename (source target : Name)
deriving DecidableEq

abbrev SceCall.Answer : SceCall → Type
  | .remove _ | .openAppend _ | .rename _ _ => Bool
  | .write _ _ => Nat
  | .mkdir _ | .sync _ | .close _ => Unit

abbrev SceProg := Prog SceCall SceCall.Answer

/-- How a system call goes; `wrote` is how many bytes of a write get to the file, also of one that fails. -/
structure Io where
  works : Bool := true
  wrote : Nat := 0

def sceIo (io : Io) : (c : SceCall) → Files → c.Answer × Files
  | .mkdir n, fs => ((), if io.works ∧ fs.lookup n = none then fs.insert n .dir else fs)
  | .remove n, fs => sceIoRemove { removes := io.works } n fs
  | .openAppend n, fs =>
    match io.works, fs.lookup n with
    | true, none => (true, fs.insert n (.file []))
    | true, some (.file _) => (true, fs)
    | _, _ => (false, fs)
  | .write n data, fs =>
    match fs.lookup n with
    | some (.file old) =>
      (if io.works then min io.wrote data.length else 0, fs.insert n (.file (old ++ data.take io.wrote)))
    | _ => (0, fs)
  | .sync _, fs | .close _, fs => ((), fs)
  | .rename source target, fs =>
    match io.works, fs.lookup source, fs.lookup target with
    | true, some node, none => (true, (fs.erase source).insert target node)
    | _, _, _ => (false, fs)

def writeLoop (n : Name) : (turns : Nat) → Bytes → SceProg Bool
  | 0, buf => return decide (buf = [])
  | turns + 1, buf =>
    if buf = [] then return true
    else do
      let k ← Prog.perform (SceCall.write n buf)
      if k = 0 then
        Prog.perform (SceCall.close n)
        return false
      else writeLoop n turns (buf.drop k)

def sceWrite (n : Name) (data : Bytes) : SceProg Bool := do
  let _ ← Prog.perform (SceCall.remove n)
  if ← Prog.perform (SceCall.openAppend n) then
    if ← writeLoop n data.length data then
      Prog.perform (SceCall.sync n)
      Prog.perform (SceCall.close n)
      return true
    else return false
  else return false

def sceRename (source target : Name) : SceProg Bool := do
  let _ ← Prog.perform (SceCall.remove target)
  Prog.perform (SceCall.rename source target)

def mkdirLevels (path : Text) : List Text :=
  let colon := (path.findIdx? (· = ':')).elim 0 (· + 1)
  ((List.range (path.length + 1)).filter
    (fun i => decide (colon < i) && (decide (i = path.length) || decide (path[i]? = some '/')))).map (path.take ·)

def createLevels : List Text → SceProg Bool
  | [] => return true
  | level :: levels => do
    if '\x00' ∈ level then return false
    else
      Prog.perform (SceCall.mkdir (utf8 level))
      createLevels levels

/-! ## At paths -/

def createDirAll (path : Text) : SceProg Bool := createLevels (mkdirLevels (norm path))

def writeFile (path : Text) (data : Bytes) : SceProg Bool :=
  match pathName path with
  | none => return false
  | some n => sceWrite n data

def renameFile (source target : Text) : SceProg Bool :=
  match pathName source, pathName target with
  | some n, some m => sceRename n m
  | _, _ => return false

def removeAt (path : Text) : SceProg Unit :=
  match pathName path with
  | none => return ()
  | some n => do
    let _ ← Prog.perform (SceCall.remove n)
    return ()

def readToString (works : Bool) (path : Text) (fs : Files) : Option Text :=
  match works, (pathName path).bind fs.lookup with
  | true, some (.file content) => fromUtf8 content
  | _, _ => none

variable {fs : Files} {n : Name}

theorem readToString_eq_some {works : Bool} {path text : Text} :
    readToString works path fs = some text ↔ works = true ∧ ∃ n content, pathName path = some n ∧
      fs.lookup n = some (.file content) ∧ fromUtf8 content = some text := by
  unfold readToString
  constructor
  · intro h
    split at h
    next content hlookup =>
      obtain ⟨n, hn, hlookup⟩ := Option.bind_eq_some_iff.1 hlookup
      exact ⟨rfl, n, content, hn, hlookup, h⟩
    · cases h
  · rintro ⟨rfl, n, content, hn, hlookup, htext⟩
    rw [hn]
    show (match true, fs.lookup n with | true, some (.file content) => fromUtf8 content | _, _ => none) = _
    rwa [hlookup]

/-! ## What a call leaves alone -/

def SceCall.Touches (m : Name) : SceCall → Prop
  | .mkdir n | .remove n | .openAppend n | .write n _ => n = m
  | .sync _ | .close _ => False
  | .rename source target => source = m ∨ target = m

theorem lookup_sceIo_of_apart (io : Io) {m : Name} : ∀ {c : SceCall}, ¬ c.Touches m → ∀ fs : Files,
    (sceIo io c fs).2.lookup m = fs.lookup m
  | .mkdir n, h, fs => by
    simp only [sceIo]
    split
    · exact Finmap.lookup_insert_of_ne fs (Ne.symm h)
    · rfl
  | .remove n, h, fs => lookup_sceIoRemove_ne _ (Ne.symm h) fs
  | .openAppend n, h, fs => by
    simp only [sceIo]
    split
    · exact Finmap.lookup_insert_of_ne fs (Ne.symm h)
    · rfl
    · rfl
  | .write n data, h, fs => by
    simp only [sceIo]
    split
    · exact Finmap.lookup_insert_of_ne fs (Ne.symm h)
    · rfl
  | .sync _, _, _ => rfl
  | .close _, _, _ => rfl
  | .rename source target, h, fs => by
    simp only [sceIo]
    split
    · rw [Finmap.lookup_insert_of_ne _ (fun he => h (.inr he.symm)),
        Finmap.lookup_erase_ne (fun he => h (.inl he.symm))]
    · rfl

def SceCall.Writes (n : Name) : SceCall → Prop
  | .remove m | .openAppend m | .write m _ | .sync m | .close m => m = n
  | .mkdir _ | .rename _ _ => False

theorem writeLoop_writes (n : Name) : ∀ (turns : Nat) (buf : Bytes),
    (writeLoop n turns buf).Meets (SceCall.Writes n) (fun _ => True)
  | 0, _ => trivial
  | turns + 1, buf => by
    unfold writeLoop
    split
    · trivial
    · refine ⟨rfl, fun k => ?_⟩
      show Prog.Meets _ _ (if k = 0 then _ else _)
      split
      · exact ⟨rfl, fun _ => trivial⟩
      · exact writeLoop_writes n turns (buf.drop k)

theorem sceWrite_writes (n : Name) (data : Bytes) : (sceWrite n data).Meets (SceCall.Writes n) (fun _ => True) := by
  refine ⟨rfl, fun _ => ⟨rfl, fun opened => ?_⟩⟩
  cases opened with
  | false => trivial
  | true =>
    refine Prog.Meets.bind (m := writeLoop n data.length data) (writeLoop_writes n data.length data) (fun ok _ => ?_)
    cases ok with
    | false => trivial
    | true => exact ⟨rfl, fun _ => ⟨rfl, fun _ => trivial⟩⟩

theorem touches_of_writes : ∀ {c : SceCall}, c.Writes n → ∀ m, c.Touches m → n = m
  | .remove _, h, _, ht => h.symm.trans ht
  | .openAppend _, h, _, ht => h.symm.trans ht
  | .write _ _, h, _, ht => h.symm.trans ht

theorem sceWrite_touches (n : Name) (data : Bytes) :
    (sceWrite n data).Meets (fun c => ∀ m, c.Touches m → n = m) (fun _ => True) :=
  (sceWrite_writes n data).mono (fun _ => touches_of_writes) (fun _ h => h)

theorem sceRename_touches (source target : Name) :
    (sceRename source target).Meets (fun c => ∀ m, c.Touches m → source = m ∨ target = m) (fun _ => True) :=
  ⟨fun _ h => .inr h, fun _ => ⟨fun _ h => h, fun _ => trivial⟩⟩

theorem writeFile_touches (path : Text) (data : Bytes) :
    (writeFile path data).Meets (fun c => ∀ m, c.Touches m → utf8 (norm path) = m) (fun _ => True) := by
  unfold writeFile
  cases hn : pathName path with
  | none => trivial
  | some n =>
    rw [← pathName_eq hn]
    exact sceWrite_touches n data

theorem renameFile_touches (source target : Text) : (renameFile source target).Meets
    (fun c => ∀ m, c.Touches m → utf8 (norm source) = m ∨ utf8 (norm target) = m) (fun _ => True) := by
  unfold renameFile
  split
  next n m hn hm =>
    rw [← pathName_eq hn, ← pathName_eq hm]
    exact sceRename_touches n m
  · trivial

theorem createDirAll_touches (dir : Text) (hn : (utf8 (norm dir)).length < n.length) :
    (createDirAll dir).Meets (fun c => ¬ c.Touches n) (fun _ => True) := by
  have hlevels : ∀ levels : List Text, (∀ l ∈ levels, utf8 l ≠ n) →
      (createLevels levels).Meets (fun c => ¬ c.Touches n) (fun _ => True) := by
    intro levels
    induction levels with
    | nil => exact fun _ => trivial
    | cons level levels ih =>
      intro h
      unfold createLevels
      split
      · trivial
      · exact ⟨h level mem_cons_self, fun _ => ih (fun l hl => h l (mem_cons_of_mem _ hl))⟩
  refine hlevels _ (fun level hl he => ?_)
  obtain ⟨i, -, rfl⟩ := mem_map.1 hl
  have htake : (utf8 ((norm dir).take i)).length ≤ (utf8 (norm dir)).length := by
    conv_rhs => rw [← take_append_drop i (norm dir), utf8_append, length_append]
    exact Nat.le_add_right _ _
  rw [he] at htake
  omega

/-! ## A write, run to its end -/

theorem writeLoop_exec (n : Name) : ∀ (turns : Nat) (buf old : Bytes) (w : Files × (Nat → Io)),
    w.1.lookup n = some (.file old) → ((writeLoop n turns buf).exec (Prog.fed sceIo) w).1 = true →
      ((writeLoop n turns buf).exec (Prog.fed sceIo) w).2.1.lookup n = some (.file (old ++ buf))
  | 0, buf, old, w, hold, hok => by
    have hnil : buf = [] := of_decide_eq_true hok
    rwa [hnil, append_nil]
  | turns + 1, buf, old, w, hold, hok => by
    rw [writeLoop] at hok ⊢
    by_cases hbuf : buf = []
    · rwa [if_pos hbuf, hbuf, append_nil]
    · rw [if_neg hbuf] at hok ⊢
      have hwrite : sceIo (w.2 0) (.write n buf) w.1 = (if (w.2 0).works then min (w.2 0).wrote buf.length else 0,
          w.1.insert n (.file (old ++ buf.take (w.2 0).wrote))) := by
        simp [sceIo, hold]
      rw [Prog.exec_bind] at hok ⊢
      simp only [Prog.perform, Prog.exec, Prog.fed, hwrite] at hok ⊢
      by_cases hk : (if (w.2 0).works then min (w.2 0).wrote buf.length else 0) = 0
      · -- the loop gives up
        rw [if_pos hk] at hok
        exact absurd hok Bool.false_ne_true
      · rw [if_neg hk] at hok ⊢
        have hworks : (w.2 0).works = true := by
          by_contra hno
          exact hk (if_neg hno)
        rw [if_pos hworks] at hok ⊢
        have hrest : buf.take (w.2 0).wrote ++ buf.drop (min (w.2 0).wrote buf.length) = buf := by
          rcases Nat.le_total (w.2 0).wrote buf.length with hle | hle
          · rw [Nat.min_eq_left hle, take_append_drop]
          · rw [Nat.min_eq_right hle, take_of_length_le hle, drop_length, append_nil]
        have ih := writeLoop_exec n turns (buf.drop (min (w.2 0).wrote buf.length)) (old ++ buf.take (w.2 0).wrote) _
          (Finmap.lookup_insert _) hok
        rwa [append_assoc, hrest] at ih

def contentAt (n : Name) (fs : Files) : Bytes :=
  match fs.lookup n with
  | some (.file content) => content
  | _ => []

def isFile (n : Name) (fs : Files) : Bool :=
  match fs.lookup n with
  | some (.file _) => true
  | _ => false

theorem lookup_of_isFile (h : isFile n fs = true) : fs.lookup n = some (.file (contentAt n fs)) := by
  unfold isFile at h
  unfold contentAt
  split at h
  next content hfile => rw [hfile]
  · cases h

theorem isFile_of_lookup {content : Bytes} (h : fs.lookup n = some (.file content)) : isFile n fs = true := by
  unfold isFile
  rw [h]

theorem openAppend_exec {io : Io} (h : (sceIo io (.openAppend n) fs).1 = true) :
    (sceIo io (.openAppend n) fs).2.lookup n = some (.file (contentAt n fs)) := by
  unfold contentAt
  simp only [sceIo] at h ⊢
  split at h
  next hnone => rw [Finmap.lookup_insert, hnone]
  next content hfile => rw [hfile]
  · exact absurd h Bool.false_ne_true

theorem sceWrite_exec (n : Name) (data : Bytes) (w : Files × (Nat → Io))
    (hok : ((sceWrite n data).exec (Prog.fed sceIo) w).1 = true) :
    ((sceWrite n data).exec (Prog.fed sceIo) w).2.1.lookup n =
      some (.file (contentAt n (sceIo (w.2 0) (.remove n) w.1).2 ++ data)) := by
  unfold sceWrite at hok ⊢
  rw [Prog.exec_bind] at hok ⊢
  generalize hremoved : (Prog.perform (SceCall.remove n)).exec (Prog.fed sceIo) w = removed at hok ⊢
  obtain ⟨answer, fs, ios⟩ := removed
  obtain rfl : (sceIo (w.2 0) (.remove n) w.1).2 = fs := congrArg (fun r => r.2.1) hremoved
  rw [Prog.exec_ite] at hok ⊢
  split at hok
  next hopen =>
    have hfile := openAppend_exec hopen
    rw [if_pos hopen]
    rw [Prog.exec_ite] at hok ⊢
    split at hok
    next hloop =>
      rw [if_pos hloop]
      exact writeLoop_exec n data.length data _ _ hfile hloop
    · exact absurd hok Bool.false_ne_true
  · exact absurd hok Bool.false_ne_true

/-! ## Calls that read, too -/

inductive DiskCall where
  | sce (c : SceCall)
  | read (n : Name)

abbrev DiskCall.Answer : DiskCall → Type
  | .sce c => c.Answer
  | .read _ => Option Bytes

abbrev DiskProg := Prog DiskCall DiskCall.Answer

def readBytes (works : Bool) (n : Name) (fs : Files) : Option Bytes :=
  match works, fs.lookup n with
  | true, some (.file content) => some content
  | _, _ => none

def disk (io : Io) : (c : DiskCall) → Files → c.Answer × Files
  | .sce c, fs => sceIo io c fs
  | .read n, fs => (readBytes io.works n fs, fs)

def onDisk {α : Type} (m : SceProg α) : DiskProg α := m.lift .sce (fun _ r => r)

theorem exec_onDisk {α : Type} (m : SceProg α) (w : Files × (Nat → Io)) :
    (onDisk m).exec (Prog.fed disk) w = m.exec (Prog.fed sceIo) w := by
  apply Prog.exec_lift
  exact fun _ _ => ⟨rfl, rfl⟩

def readFile (path : Text) : DiskProg (Option Text) :=
  match pathName path with
  | none => return none
  | some n => do
    let content ← Prog.perform (DiskCall.read n)
    return content.bind fromUtf8

end TailscaleVita.Fs
