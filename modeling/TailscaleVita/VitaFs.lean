import TailscaleVita.HashMap
import TailscaleVita.StdText
/-!
# VitaFs — the files of a directory (`vita-fs/src/vita.rs`)

The crate's calls, each made of one or two system calls that may fail. A call that fails has done what its system calls
had done by then: `write` and `rename` have removed what was there before.
-/
namespace TailscaleVita.Fs

open List Finmap

abbrev Name := Bytes

inductive Node where
  | file (content : Bytes)
  | dir
deriving DecidableEq

abbrev Files := HashMap Name Node

/-- What the system calls of one call answer; `stops` is a write that fails, after so many bytes. -/
structure Sce where
  removes : Bool := true
  opens : Bool := true
  stops : Option Nat := none
  renames : Bool := true
  lists : Bool := true

def sceIoRemove (io : Sce) (n : Name) (fs : Files) : Bool × Files :=
  match io.removes, fs.lookup n with
  | true, some (.file _) => (true, fs.erase n)
  | _, _ => (false, fs)

def writeAtEnd (io : Sce) (n : Name) (old data : Bytes) (fs : Files) : Bool × Files :=
  match data, io.stops with
  | [], _ | _, none => (true, fs.insert n (.file (old ++ data)))
  | _, some k => (false, fs.insert n (.file (old ++ data.take k)))

def append (io : Sce) (n : Name) (data : Bytes) (fs : Files) : Bool × Files :=
  match io.opens, fs.lookup n with
  | false, _ | true, some .dir => (false, fs)
  | true, some (.file old) => writeAtEnd io n old data fs
  | true, none => writeAtEnd io n [] data fs

/-- `write`: whether the removal went through is not looked at. -/
def write (io : Sce) (n : Name) (data : Bytes) (fs : Files) : Bool × Files := append io n data (sceIoRemove io n fs).2

def removeFile (io : Sce) (n : Name) (fs : Files) : Bool × Files :=
  match io.removes, fs.lookup n with
  | false, _ | true, some .dir => (false, fs)
  | true, none => (true, fs)
  | true, some (.file _) => (true, fs.erase n)

def rename (io : Sce) (source target : Name) (fs : Files) : Bool × Files :=
  let fs := (sceIoRemove io target fs).2
  match io.renames, fs.lookup source, fs.lookup target with
  | true, some node, none => (true, (fs.erase source).insert target node)
  | _, _, _ => (false, fs)

def readDir (io : Sce) (fs : Files) : Option (Finset Name) := if io.lists then some fs.keys else none

/-! ## Paths -/

def dropSlash : Text → Text
  | [] => []
  | c :: rest => if c = '/' then rest else c :: rest

def norm : Text → Text
  | [] => []
  | c :: rest => if c = ':' then c :: dropSlash rest else c :: norm rest

def pathName (path : Text) : Option Name := if '\x00' ∈ path then none else some (utf8 (norm path))

theorem norm_of_no_colon : ∀ {path : Text}, ':' ∉ path → norm path = path
  | [], _ => rfl
  | c :: path, h => by
    have hc : c ≠ ':' := fun he => h (he ▸ mem_cons_self)
    rw [norm, if_neg hc, norm_of_no_colon (fun hm => h (mem_cons_of_mem c hm))]

theorem norm_append {c : Char} {suffix : Text} (h : ':' ∉ c :: suffix) (hc : c ≠ '/') :
    ∀ path : Text, norm (path ++ c :: suffix) = norm path ++ c :: suffix
  | [] => norm_of_no_colon h
  | x :: path => by
    have hdrop : dropSlash (path ++ c :: suffix) = dropSlash path ++ c :: suffix := by
      cases path with
      | nil => exact if_neg hc
      | cons y path =>
        rw [cons_append, dropSlash, dropSlash]
        split <;> rfl
    rw [cons_append, norm, norm]
    split
    · rw [hdrop, cons_append]
    · rw [norm_append h hc path, cons_append]

def join (dir file : Text) : Text :=
  if dir = [] ∨ dir.getLast? = some '/' then dir ++ file else dir ++ '/' :: file

theorem join_append (dir file more : Text) : join dir (file ++ more) = join dir file ++ more := by
  unfold join
  split
  · rw [append_assoc]
  · rw [append_assoc, cons_append]

variable {fs : Files} {m n target : Name} {path : Text}

theorem pathName_eq (h : pathName path = some n) : n = utf8 (norm path) := by
  unfold pathName at h
  split at h
  · cases h
  · exact (Option.some.inj h).symm

theorem dropSlash_ne_nil (h : dropSlash path ≠ []) : path ≠ [] := fun hnil => h (by rw [hnil]; rfl)

theorem norm_ne_nil (h : path ≠ []) : norm path ≠ [] := by
  obtain ⟨c, rest, rfl⟩ := exists_cons_of_ne_nil h
  rw [norm]
  split <;> exact cons_ne_nil _ _

theorem norm_longer {more : Text} (h : dropSlash more ≠ []) : ∀ path : Text,
    ∃ r, r ≠ [] ∧ norm (path ++ more) = norm path ++ r
  | [] => ⟨norm more, norm_ne_nil (dropSlash_ne_nil h), rfl⟩
  | c :: path => by
    rw [cons_append, norm, norm]
    by_cases hc : c = ':'
    · rw [if_pos hc, if_pos hc]
      cases path with
      | nil => exact ⟨dropSlash more, h, rfl⟩
      | cons c' path =>
        refine ⟨more, dropSlash_ne_nil h, ?_⟩
        rw [cons_append, dropSlash, dropSlash]
        split <;> rfl
    · obtain ⟨r, hr, he⟩ := norm_longer h path
      rw [if_neg hc, if_neg hc, he]
      exact ⟨r, hr, rfl⟩

theorem utf8_norm_longer {more : Text} (h : dropSlash more ≠ []) (path : Text) :
    (utf8 (norm path)).length < (utf8 (norm (path ++ more))).length := by
  obtain ⟨r, hr, he⟩ := norm_longer h path
  have hpos := length_pos_iff.2 (utf8_ne_nil hr)
  rw [he, utf8_append, length_append]
  omega

theorem utf8_norm_join {file : Text} (hne : file ≠ []) (hform : '/' ∉ file) (dir : Text) :
    (utf8 (norm dir)).length < (utf8 (norm (join dir file))).length := by
  obtain ⟨c, cs, rfl⟩ := exists_cons_of_ne_nil hne
  have hc : c ≠ '/' := fun he => hform (by rw [he]; exact mem_cons_self)
  unfold join
  split
  · refine utf8_norm_longer ?_ dir
    rw [dropSlash, if_neg hc]
    exact cons_ne_nil c cs
  · refine utf8_norm_longer ?_ dir
    rw [dropSlash, if_pos rfl]
    exact cons_ne_nil c cs

/-! ## What a call leaves alone -/

def Free (fs : Files) (n : Name) : Prop := ∀ content, fs.lookup n ≠ some (.file content)

instance (fs : Files) (n : Name) : Decidable (Free fs n) :=
  match h : fs.lookup n with
  | some (.file content) => isFalse (fun hfree => hfree content h)
  | some .dir => isTrue (fun content hfile => by rw [h] at hfile; cases hfile)
  | none => isTrue (fun content hfile => by rw [h] at hfile; cases hfile)

variable (io : Sce)

theorem sceIoRemove_of_free (h : Free fs n) : (sceIoRemove io n fs).2 = fs := by
  unfold sceIoRemove
  split
  next hfile => exact absurd hfile (h _)
  · rfl

theorem lookup_append_ne (h : m ≠ n) (data : Bytes) (fs : Files) :
    (append io n data fs).2.lookup m = fs.lookup m := by
  have hwrite : ∀ old, (writeAtEnd io n old data fs).2.lookup m = fs.lookup m := fun old => by
    unfold writeAtEnd
    split <;> exact lookup_insert_of_ne _ h
  unfold append
  split
  · rfl
  · rfl
  · exact hwrite _
  · exact hwrite _

theorem lookup_sceIoRemove_ne (h : m ≠ n) (fs : Files) : (sceIoRemove io n fs).2.lookup m = fs.lookup m := by
  unfold sceIoRemove
  split
  · exact lookup_erase_ne h
  · rfl

theorem lookup_write_ne (h : m ≠ n) (data : Bytes) (fs : Files) :
    (write io n data fs).2.lookup m = fs.lookup m := by
  unfold write
  rw [lookup_append_ne io h, lookup_sceIoRemove_ne io h]

theorem lookup_removeFile_ne (h : m ≠ n) (fs : Files) : (removeFile io n fs).2.lookup m = fs.lookup m := by
  unfold removeFile
  split
  · rfl
  · rfl
  · rfl
  · exact lookup_erase_ne h

theorem lookup_removeFile_of_free (h : Free fs n) : (removeFile io n fs).2 = fs := by
  unfold removeFile
  split
  · rfl
  · rfl
  · rfl
  next hfile => exact absurd hfile (h _)

theorem append_file {old : Bytes} (h : fs.lookup n = some (.file old)) (data : Bytes) :
    ((append io n data fs).1 = true ∧ (append io n data fs).2.lookup n = some (.file (old ++ data))) ∨
    ((append io n data fs).1 = false ∧ ∃ content, (append io n data fs).2.lookup n = some (.file content)) := by
  unfold append
  rw [h]
  cases io.opens with
  | false => exact .inr ⟨rfl, old, h⟩
  | true =>
    simp only [writeAtEnd]
    split
    · exact .inl ⟨rfl, lookup_insert _⟩
    · exact .inl ⟨rfl, lookup_insert _⟩
    · exact .inr ⟨rfl, _, lookup_insert _⟩

theorem write_empty_of_free (h : Free fs n) :
    (fs.lookup n = none ∧ write io n [] fs = (true, fs.insert n (.file []))) ∨ write io n [] fs = (false, fs) := by
  unfold write
  rw [sceIoRemove_of_free io h]
  unfold append
  split
  · exact .inr rfl
  · exact .inr rfl
  next hfile => exact absurd hfile (h _)
  next hnone => exact .inl ⟨hnone, rfl⟩

theorem append_ok {data : Bytes} (h : (append io n data fs).1 = true) :
    ∃ content, (append io n data fs).2.lookup n = some (.file content) := by
  unfold append at h ⊢
  split at h
  · cases h
  · cases h
  all_goals
    unfold writeAtEnd
    split <;> exact ⟨_, lookup_insert _⟩

theorem write_empty (n : Name) (fs : Files) (h : (write io n [] fs).1 = true) :
    fs.lookup n ≠ some .dir ∧ ∃ content, (write io n [] fs).2.lookup n = some (.file content) := by
  refine ⟨fun hd => ?_, append_ok io h⟩
  have hfree : Free fs n := fun content hf => by rw [hd] at hf; cases hf
  unfold write at h
  rw [sceIoRemove_of_free io hfree] at h
  unfold append at h
  rw [hd] at h
  cases hopens : io.opens <;> rw [hopens] at h <;> cases h

theorem rename_dir (source : Name) (h : fs.lookup target = some .dir) :
    rename io source target fs = (false, fs) := by
  have hfree : Free fs target := fun content hf => by rw [h] at hf; cases hf
  unfold rename
  rw [sceIoRemove_of_free io hfree]
  dsimp only
  rw [h]
  cases io.renames <;> cases fs.lookup source <;> rfl

theorem write_empty_works (h : fs.lookup n ≠ some .dir) : (write {} n [] fs).1 = true := by
  unfold write sceIoRemove append
  cases hn : fs.lookup n with
  | none => simp [hn, writeAtEnd]
  | some node =>
    cases node with
    | dir => exact absurd hn h
    | file content => simp [writeAtEnd]

theorem rename_works {source : Name} {content : Bytes} (hne : source ≠ target)
    (hsource : fs.lookup source = some (.file content)) (htarget : fs.lookup target ≠ some .dir) :
    (rename {} source target fs).1 = true := by
  unfold rename sceIoRemove
  cases ht : fs.lookup target with
  | none => simp [hsource, ht]
  | some node =>
    cases node with
    | dir => exact absurd ht htarget
    | file old => simp [lookup_erase_ne hne, hsource]

theorem rename_of_free {source : Name} {content : Bytes} (hsource : fs.lookup source = some (.file content))
    (h : Free fs target) :
    (fs.lookup target = none ∧
      rename io source target fs = (true, (fs.erase source).insert target (.file content))) ∨
    rename io source target fs = (false, fs) := by
  unfold rename
  rw [sceIoRemove_of_free io h]
  simp only [hsource]
  cases io.renames with
  | false => exact .inr rfl
  | true =>
    cases htarget : fs.lookup target with
    | none => exact .inl ⟨rfl, rfl⟩
    | some node => exact .inr rfl

end TailscaleVita.Fs
