import TailscaleVita.DemoConfig
import TailscaleVita.VitaCrash
/-!
# DemoSwap — writing `config.toml` back (`crash_safe_swap`, `tailscale-vita-demo/src/ui/config_edit.rs`)

The original is written to `.bak`, the new text to `.tmp`, which is then renamed over the file; `vita_fs::rename`
removes the file first. What counts is that the file then reads as some text that is not blank. If it does not, the new
text is written to it directly.
-/
namespace TailscaleVita.Demo

open Fs Prog

open Fs (Name Node Files Io SceCall DiskCall DiskProg onDisk)

inductive SwapError where
  | readConfig
  | noKey (key sect : Text)
  | writeTmp
  | swapFailed (bak : Text)
deriving DecidableEq

def bakSuffix : Text := ".bak".toList
def tmpSuffix : Text := ".tmp".toList

def good : Option Text → Bool
  | some s => !(trim s).isEmpty
  | none => false

def stage (configPath original newText : Text) : DiskProg Bool := do
  let _ ← onDisk (writeFile (configPath ++ bakSuffix) (utf8 original))
  if ← onDisk (writeFile (configPath ++ tmpSuffix) (utf8 newText)) then
    let _ ← onDisk (renameFile (configPath ++ tmpSuffix) configPath)
    return true
  else return false

def verify (configPath newText : Text) : DiskProg (Except SwapError Unit) := do
  let s ← readFile configPath
  if good s then return .ok ()
  else if ← onDisk (writeFile configPath (utf8 newText)) then return .ok ()
  else return .error (.swapFailed (configPath ++ bakSuffix))

def crashSafeSwap (configPath original newText : Text) : DiskProg (Except SwapError Unit) := do
  if ← stage configPath original newText then verify configPath newText else return .error .writeTmp

def applyWith {β : Type} (configPath : Text) (edit : Text → Except SwapError (Text × β)) :
    DiskProg (Except SwapError β) := do
  match ← readFile configPath with
  | none => return .error .readConfig
  | some text =>
    match edit text with
    | .error e => return .error e
    | .ok (newText, v) =>
      let r ← crashSafeSwap configPath text newText
      return r.map (fun _ => v)

def applyToggle (configPath sect key : Text) : DiskProg (Except SwapError Bool) :=
  applyWith configPath (fun text => (toggleBool text sect key).elim (.error (.noKey key sect)) .ok)

def applySet (configPath sect key : Text) (value : Bool) : DiskProg (Except SwapError Bool) :=
  applyWith configPath (fun text => .ok (setBool text sect key value))

def applySetStr (configPath sect key value : Text) : DiskProg (Except SwapError Text) :=
  applyWith configPath (fun text => .ok (setStr text sect key value, value))

/-! ## The names of the files -/

def nameOf (path : Text) : Name := utf8 (norm path)

section

variable (path : Text)

theorem nameOf_append {rest : Text} (h : ':' ∉ '.' :: rest) :
    nameOf (path ++ '.' :: rest) = nameOf path ++ utf8 ('.' :: rest) := by
  unfold nameOf
  rw [norm_append h (by decide), utf8_append]

theorem bak_ne : nameOf (path ++ bakSuffix) ≠ nameOf path := by
  rw [show bakSuffix = '.' :: "bak".toList from rfl, nameOf_append path (by decide)]
  exact fun h => utf8_ne_nil (List.cons_ne_nil _ _) (List.append_right_eq_self.1 h)

theorem tmp_ne : nameOf (path ++ tmpSuffix) ≠ nameOf path := by
  rw [show tmpSuffix = '.' :: "tmp".toList from rfl, nameOf_append path (by decide)]
  exact fun h => utf8_ne_nil (List.cons_ne_nil _ _) (List.append_right_eq_self.1 h)

theorem bak_ne_tmp : nameOf (path ++ bakSuffix) ≠ nameOf (path ++ tmpSuffix) := by
  rw [show bakSuffix = '.' :: "bak".toList from rfl, nameOf_append path (by decide),
    show tmpSuffix = '.' :: "tmp".toList from rfl, nameOf_append path (by decide)]
  exact fun h => absurd (List.append_cancel_left h) (by decide)

end

/-! ## What a swap that returns `Ok` has done -/

abbrev Disk := Files × (Nat → Io)

def later (w : Disk) : Disk := (w.1, fun i => w.2 (i + 1))

def HoldsText (path text : Text) (fs : Files) : Prop := (pathName path).bind fs.lookup = some (.file (utf8 text))

def readsAs (path : Text) (w : Disk) : Option Text := readToString (w.2 0).works path w.1

def rewrites (path newText : Text) (w : Disk) : Bool :=
  ((writeFile path (utf8 newText)).exec (fed sceIo) w).1

section

variable (path newText : Text)

theorem readFile_exec (w : Disk) (hn : pathName path ≠ none) :
    (readFile path).exec (fed disk) w = (readsAs path w, later w) := by
  unfold readFile readsAs readToString
  cases hpath : pathName path with
  | none => exact absurd hpath hn
  | some n =>
    show ((readBytes (w.2 0).works n w.1).bind fromUtf8, later w) = _
    simp only [Option.bind_some]
    unfold readBytes
    cases (w.2 0).works with
    | false => rfl
    | true =>
      cases w.1.lookup n with
      | none => rfl
      | some node => cases node <;> rfl

theorem verify_exec (w : Disk) (hn : pathName path ≠ none) :
    (verify path newText).exec (fed disk) w =
      if good (readsAs path w) = true then (.ok (), later w)
      else (if rewrites path newText (later w) = true then .ok () else .error (.swapFailed (path ++ bakSuffix)),
        ((writeFile path (utf8 newText)).exec (fed sceIo) (later w)).2) := by
  unfold verify
  rw [exec_bind, readFile_exec path w hn]
  split
  · rfl
  · rw [exec_ite, exec_onDisk]
    unfold rewrites
    split <;> rfl

theorem pathName_append {more : Text} (h : pathName path = none) : pathName (path ++ more) = none := by
  unfold pathName at h ⊢
  split at h
  next hnul => exact if_pos (List.mem_append_left _ hnul)
  · cases h

theorem pathName_of_stage {original : Text} {w : Disk}
    (h : ((stage path original newText).exec (fed disk) w).1 = true) : pathName path ≠ none := by
  intro hnone
  unfold stage at h
  rw [exec_bind, exec_ite, exec_onDisk] at h
  unfold writeFile at h
  rw [pathName_append path hnone, pathName_append path hnone] at h
  exact Bool.false_ne_true h

theorem swap_exec (original : Text) (w : Disk) :
    (crashSafeSwap path original newText).exec (fed disk) w =
      let staged := (stage path original newText).exec (fed disk) w
      if staged.1 = true then (verify path newText).exec (fed disk) staged.2
      else (.error .writeTmp, staged.2) := by
  unfold crashSafeSwap
  rw [exec_ite]
  rfl

theorem applyWith_exec {β : Type} (edit : Text → Except SwapError (Text × β)) (w : Disk) {text : Text} {v : β}
    (hn : pathName path ≠ none) (hread : readsAs path w = some text) (hedit : edit text = .ok (newText, v)) :
    (applyWith path edit).exec (fed disk) w =
      let r := (crashSafeSwap path text newText).exec (fed disk) (later w)
      (r.1.map (fun _ => v), r.2) := by
  unfold applyWith
  rw [exec_bind, readFile_exec path w hn, hread]
  simp only
  rw [hedit]
  rw [exec_bind]
  rfl

end

/-! ## Removals that go through -/

theorem not_isFile_removed {io : Io} (hw : io.works = true) (n : Name) (fs : Files) :
    isFile n (sceIo io (.remove n) fs).2 = false := by
  simp only [sceIo, sceIoRemove, hw]
  unfold isFile
  split
  next content hfile =>
    split at hfile
    · rw [Finmap.lookup_erase] at hfile
      cases hfile
    next hno => exact absurd hfile (hno content rfl)
  · rfl

theorem contentAt_of_not_isFile {n : Name} {fs : Files} (h : isFile n fs = false) : contentAt n fs = [] := by
  unfold isFile at h
  unfold contentAt
  split at h
  · cases h
  · rfl

def backedUp (path original : Text) (w : Disk) : Disk :=
  ((writeFile (path ++ bakSuffix) (utf8 original)).exec (fed sceIo) w).2

def staged (path newText : Text) (w : Disk) : Bool × Disk :=
  (writeFile (path ++ tmpSuffix) (utf8 newText)).exec (fed sceIo) w

def renamed (path : Text) (w : Disk) : Disk := ((renameFile (path ++ tmpSuffix) path).exec (fed sceIo) w).2

theorem stage_exec (path original newText : Text) (w : Disk) :
    (stage path original newText).exec (fed disk) w =
      if (staged path newText (backedUp path original w)).1 = true then
        (true, renamed path (staged path newText (backedUp path original w)).2)
      else (false, (staged path newText (backedUp path original w)).2) := by
  unfold stage
  rw [exec_bind, exec_ite, exec_onDisk, exec_onDisk]
  split
  next hstaged =>
    rw [exec_bind, exec_onDisk]
    exact (if_pos hstaged).symm
  next hstaged => exact (if_neg hstaged).symm

theorem staged_holds {path newText : Text} {w : Disk} (hok : (staged path newText w).1 = true)
    (hremoved : (w.2 0).works = true) :
    ∃ t, pathName (path ++ tmpSuffix) = some t ∧
      (staged path newText w).2.1.lookup t = some (.file (utf8 newText)) := by
  unfold staged writeFile at hok ⊢
  cases ht : pathName (path ++ tmpSuffix) with
  | none =>
    rw [ht] at hok
    exact absurd hok Bool.false_ne_true
  | some t =>
    rw [ht] at hok
    have hwritten := sceWrite_exec t (utf8 newText) w hok
    rw [contentAt_of_not_isFile (not_isFile_removed hremoved t w.1)] at hwritten
    exact ⟨t, rfl, hwritten⟩

theorem renamed_holds {path newText : Text} {w : Disk} {t : Name} (ht : pathName (path ++ tmpSuffix) = some t)
    (hnew : w.1.lookup t = some (.file (utf8 newText))) (hremoved : (w.2 0).works = true) {text : Text}
    (hread : readsAs path (renamed path w) = some text) : HoldsText path newText (renamed path w).1 := by
  obtain ⟨-, c, content, hc, hfile, -⟩ := readToString_eq_some.1 hread
  have hrenamed : (renamed path w).1 = (sceIo (w.2 1) (.rename t c) (sceIo (w.2 0) (.remove c) w.1).2).2 := by
    unfold renamed renameFile
    rw [ht, hc]
    rfl
  have hgone := not_isFile_removed hremoved c w.1
  have hstill : (sceIo (w.2 0) (.remove c) w.1).2.lookup t = some (.file (utf8 newText)) := by
    have hne : c ≠ t := by
      rw [pathName_eq hc, pathName_eq ht]
      exact (tmp_ne path).symm
    rwa [lookup_sceIo_of_apart (w.2 0) (c := .remove c) hne]
  unfold HoldsText
  rw [hc, Option.bind_some, hrenamed]
  rw [hrenamed] at hfile
  -- without a rename there is no file to read
  simp only [sceIo] at hfile hstill hgone ⊢
  split at hfile
  next node _ hnode _ =>
    rw [hstill] at hnode
    rw [Finmap.lookup_insert, ← Option.some.inj hnode]
  · rw [isFile_of_lookup hfile] at hgone
    cases hgone

theorem rewrites_holds {path newText : Text} {w : Disk} (hn : pathName path ≠ none) (hremoved : (w.2 0).works = true)
    (h : rewrites path newText w = true) :
    HoldsText path newText ((writeFile path (utf8 newText)).exec (fed sceIo) w).2.1 := by
  obtain ⟨n, hname⟩ := Option.ne_none_iff_exists'.1 hn
  unfold HoldsText
  unfold rewrites writeFile at h
  unfold writeFile
  rw [hname] at h ⊢
  rw [Option.bind_some, sceWrite_exec n _ w h, contentAt_of_not_isFile (not_isFile_removed hremoved n w.1)]
  rfl

/-- The removals of a swap go through: of an old staged file, of the config file before the rename, and of the config
file before a direct write. -/
structure RemovalsWork (path original newText : Text) (w : Disk) : Prop where
  tmp : ((backedUp path original w).2 0).works = true
  config : ((staged path newText (backedUp path original w)).2.2 0).works = true
  direct : (((stage path original newText).exec (fed disk) w).2.2 1).works = true

variable {path original newText : Text} {w : Disk}

theorem RemovalsWork.swapped (h : RemovalsWork path original newText w)
    (hok : ((crashSafeSwap path original newText).exec (fed disk) w).1 = .ok ()) :
    HoldsText path newText ((crashSafeSwap path original newText).exec (fed disk) w).2.1 := by
  rw [swap_exec] at hok ⊢
  simp only at hok ⊢
  by_cases hstaged : ((stage path original newText).exec (fed disk) w).1 = true
  · have hn := pathName_of_stage path newText hstaged
    have hdirect := h.direct
    rw [if_pos hstaged, verify_exec path newText _ hn] at hok ⊢
    split at hok
    next hgood =>
      -- what is read after the rename is what was staged
      rw [if_pos hgood]
      rw [stage_exec] at hstaged hgood ⊢
      by_cases hwritten : (staged path newText (backedUp path original w)).1 = true
      · rw [if_pos hwritten] at hgood ⊢
        obtain ⟨t, ht, hnew⟩ := staged_holds hwritten h.tmp
        cases hread : readsAs path (renamed path (staged path newText (backedUp path original w)).2) with
        | some text => exact renamed_holds ht hnew h.config hread
        | none =>
          rw [hread] at hgood
          exact absurd hgood Bool.false_ne_true
      · rw [if_neg hwritten] at hstaged
        exact absurd hstaged Bool.false_ne_true
    next hgood =>
      rw [if_neg hgood]
      by_cases hw : rewrites path newText (later ((stage path original newText).exec (fed disk) w).2) = true
      · exact rewrites_holds hn hdirect hw
      · rw [if_neg hw] at hok
        cases hok
  · rw [if_neg hstaged] at hok
    cases hok

theorem RemovalsWork.applied {β : Type} {edit : Text → Except SwapError (Text × β)} {v v' : β}
    (hread : readsAs path w = some original) (hedit : edit original = .ok (newText, v))
    (h : RemovalsWork path original newText (later w)) (hok : ((applyWith path edit).exec (fed disk) w).1 = .ok v') :
    HoldsText path newText ((applyWith path edit).exec (fed disk) w).2.1 := by
  have hname : pathName path ≠ none := by
    obtain ⟨-, n, -, hn, -⟩ := readToString_eq_some.1 hread
    rw [hn]
    exact Option.some_ne_none n
  rw [applyWith_exec path newText edit w hname hread hedit] at hok ⊢
  simp only at hok ⊢
  refine h.swapped ?_
  cases hr : ((crashSafeSwap path original newText).exec (fed disk) (later w)).1 with
  | ok u => rfl
  | error e =>
    rw [hr] at hok
    cases hok

/-- **A swap that returns `Ok` has swapped, if its removals went through.** For every text and file system and however
the other system calls go, the config file then holds exactly the new text; and so it is with `apply_set`,
`apply_toggle` and `apply_set_str`, where the new text is the edit of what was read. -/
theorem swap_ok_of_removals (path sect key original : Text) (w : Disk) :
    (∀ newText, RemovalsWork path original newText w →
      ((crashSafeSwap path original newText).exec (fed disk) w).1 = .ok () →
      HoldsText path newText ((crashSafeSwap path original newText).exec (fed disk) w).2.1) ∧
    (readsAs path w = some original →
      (∀ value v, RemovalsWork path original (setBool original sect key value).1 (later w) →
        ((applySet path sect key value).exec (fed disk) w).1 = .ok v →
        HoldsText path (setBool original sect key value).1 ((applySet path sect key value).exec (fed disk) w).2.1) ∧
      (∀ newText b v, toggleBool original sect key = some (newText, b) →
        RemovalsWork path original newText (later w) → ((applyToggle path sect key).exec (fed disk) w).1 = .ok v →
        HoldsText path newText ((applyToggle path sect key).exec (fed disk) w).2.1) ∧
      ∀ value v, RemovalsWork path original (setStr original sect key value) (later w) →
        ((applySetStr path sect key value).exec (fed disk) w).1 = .ok v →
        HoldsText path (setStr original sect key value) ((applySetStr path sect key value).exec (fed disk) w).2.1) := by
  refine ⟨fun newText h hok => h.swapped hok, fun hread =>
    ⟨fun value v h hok => ?_, fun newText b v htoggle h hok => ?_, fun value v h hok => ?_⟩⟩
  · exact h.applied hread rfl hok
  · exact h.applied (v := b) hread (by rw [htoggle]; rfl) hok
  · exact h.applied hread rfl hok

/-! ## A rename that does not go through -/

def configFile : Text := "ux0:data/config.toml".toList

def configName : Name := utf8 configFile

def onlyConfig (text : Text) : Files := Finmap.singleton configName (.file (utf8 text))

def failing (places : List Nat) (i : Nat) : Io := { works := decide (i ∉ places), wrote := 100 }

theorem swap_ok_well :
    let original := "[net]\na = true\n".toList
    let w : Disk := (onlyConfig original, failing [])
    let applied := (applyToggle configFile "net".toList "a".toList).exec (fed disk) w
    applied.1 = .ok false ∧ HoldsText configFile "[net]\na = false\n".toList applied.2.1 := by
  intro original w applied
  have hok : applied.1 = .ok false := by decide +kernel
  have htoggle := (swap_ok_of_removals configFile "net".toList "a".toList original w).2 (by decide +kernel)
  exact ⟨hok, htoggle.2.1 _ false false (by decide +kernel)
    ⟨by decide +kernel, by decide +kernel, by decide +kernel⟩ hok⟩

def keptSwap : Except SwapError Unit × Disk :=
  (crashSafeSwap configFile "a = 1\n".toList "a = 2\n".toList).exec (fed disk)
    (onlyConfig "a = 1\n".toList, failing [10])

/-- **The old text is reported as the new one**: without the removal the rename fails too, and the file that is still
there passes the check. -/
theorem swap_ok_old_text :
    keptSwap.1 = .ok () ∧ keptSwap.2.1.lookup configName = some (.file (utf8 "a = 1\n".toList)) ∧
      ¬ HoldsText configFile "a = 2\n".toList keptSwap.2.1 := by
  have hrun : keptSwap.1 = .ok () ∧ keptSwap.2.1.lookup configName = some (.file (utf8 "a = 1\n".toList)) := by
    decide +kernel
  refine ⟨hrun.1, hrun.2, fun h => ?_⟩
  have hname : pathName configFile = some configName := by decide
  unfold HoldsText at h
  rw [hname, Option.bind_some, hrun.2] at h
  exact absurd h (by decide)

/-! ## A swap cut short -/

abbrev SwapCut := DiskProg (Except SwapError Unit) × Files

def SwapCut.step (s : SwapCut) (io : Io) : SwapCut := resume (disk io) s.1 s.2

section

variable (path original newText : Text)

def Complete (content : Bytes) : Prop := content = utf8 original ∨ content = utf8 newText

def HoldsComplete (n : Name) (fs : Files) : Prop :=
  isFile n fs = true ∧ Complete original newText (contentAt n fs)

def OthersHold (fs : Files) : Prop :=
  HoldsComplete original newText (nameOf (path ++ bakSuffix)) fs ∨
    HoldsComplete original newText (nameOf (path ++ tmpSuffix)) fs

def Survives (fs : Files) : Prop :=
  HoldsComplete original newText (nameOf path) fs ∨ OthersHold path original newText fs

/-- The next call spares the last complete copy: the config file is not removed while neither of the other two is
complete, and no write to it leaves it incomplete then. -/
def Spared : SwapCut → Io → Prop
  | (.call (.sce (.remove n)) _, fs), io =>
    n = nameOf path → io.works = true → isFile n fs = true → OthersHold path original newText fs
  | (.call (.sce (.write n data)) _, fs), io =>
    n = nameOf path → isFile n fs = true →
      OthersHold path original newText fs ∨ Complete original newText (contentAt n fs ++ data.take io.wrote)
  | _, _ => True

instance (content : Bytes) : Decidable (Complete original newText content) :=
  inferInstanceAs (Decidable (_ ∨ _))

instance (n : Name) (fs : Files) : Decidable (HoldsComplete original newText n fs) :=
  inferInstanceAs (Decidable (_ ∧ _))

instance (fs : Files) : Decidable (OthersHold path original newText fs) := inferInstanceAs (Decidable (_ ∨ _))

instance (fs : Files) : Decidable (Survives path original newText fs) := inferInstanceAs (Decidable (_ ∨ _))

instance : (s : SwapCut) → (io : Io) → Decidable (Spared path original newText s io)
  | (.call (.sce (.remove _)) _, _), _ => inferInstanceAs (Decidable (_ → _))
  | (.call (.sce (.write _ _)) _, _), _ => inferInstanceAs (Decidable (_ → _))
  | (.call (.sce (.mkdir _)) _, _), _ | (.call (.sce (.openAppend _)) _, _), _ | (.call (.sce (.sync _)) _, _), _
  | (.call (.sce (.close _)) _, _), _ | (.call (.sce (.rename _ _)) _, _), _ | (.call (.read _) _, _), _
  | (.done _, _), _ => isTrue trivial

end

/-! ### The calls of a swap -/

def swapping (config tmp : Name) : Protocol DiskCall DiskCall.Answer Bool where
  may late c := match late, c with
    | false, .sce c => c = .remove config ∨ ¬ c.Touches config
    | true, .sce (.rename source target) => source = tmp ∧ target = config
    | true, .sce c => c.Writes config
    | _, .read _ => True
  after late c _ := late || match c with
    | .sce c => decide (c = .remove config)
    | .read _ => false

section

variable {config tmp : Name}

theorem after_early {c : SceCall} (hc : ¬ c.Touches config) (r : c.Answer) :
    (swapping config tmp).after false (.sce c) r = false := by
  have hne : c ≠ .remove config := fun he => hc (by rw [he]; rfl)
  simp [swapping, hne]

theorem early_tracks {α : Type} {m : Fs.SceProg α} (h : m.Meets (fun c => ¬ c.Touches config) (fun _ => True)) :
    (onDisk m).Tracks (swapping config tmp) (fun late _ => late = false ∧ True) false := by
  have hdisk : (onDisk m).Meets (fun c => ∃ c', c = DiskCall.sce c' ∧ ¬ c'.Touches config) (fun _ => True) :=
    Prog.Meets.lift (fun c hc => ⟨c, rfl, hc⟩) h
  refine Prog.Tracks.of_meets (fun c hc => ?_) hdisk
  obtain ⟨c, rfl, hc⟩ := hc
  exact ⟨.inr hc, after_early hc⟩

theorem late_tracks {α : Type} {m : Fs.SceProg α} (h : m.Meets (SceCall.Writes config) (fun _ => True)) :
    (onDisk m).Tracks (swapping config tmp) (fun late _ => late = true ∧ True) true := by
  have hdisk : (onDisk m).Meets (fun c => ∃ c', c = DiskCall.sce c' ∧ c'.Writes config) (fun _ => True) :=
    Prog.Meets.lift (fun c hc => ⟨c, rfl, hc⟩) h
  refine Prog.Tracks.of_meets (fun c hc => ?_) hdisk
  obtain ⟨c, rfl, hc⟩ := hc
  refine ⟨?_, fun _ => rfl⟩
  cases c with
  | rename source target => exact hc.elim
  | _ => exact hc

end

section

variable (path : Text)

theorem writeFile_apart {more : Text} (hne : nameOf (path ++ more) ≠ nameOf path) (data : Bytes) :
    (writeFile (path ++ more) data).Meets (fun c => ¬ c.Touches (nameOf path)) (fun _ => True) := by
  unfold writeFile
  cases hn : pathName (path ++ more) with
  | none => trivial
  | some n =>
    have hapart : ∀ c : SceCall, (∀ m, c.Touches m → n = m) → ¬ c.Touches (nameOf path) := fun c hc ht => by
      refine hne (Eq.trans ?_ (hc _ ht))
      exact (pathName_eq hn).symm
    exact (sceWrite_touches n data).mono hapart (fun _ h => h)

theorem writeFile_writes (data : Bytes) :
    (writeFile path data).Meets (SceCall.Writes (nameOf path)) (fun _ => True) := by
  unfold writeFile
  cases hn : pathName path with
  | none => trivial
  | some n =>
    rw [pathName_eq hn]
    exact sceWrite_writes _ data

end

theorem verify_tracks (path newText : Text) : (verify path newText).Tracks
    (swapping (nameOf path) (nameOf (path ++ tmpSuffix))) (fun _ _ => True) true := by
  have hread : (readFile path).Tracks (swapping (nameOf path) (nameOf (path ++ tmpSuffix)))
      (fun late _ => late = true) true := by
    unfold readFile
    cases pathName path with
    | none => rfl
    | some n => exact ⟨trivial, fun _ => rfl⟩
  refine Prog.Tracks.bind hread (fun late s hlate => ?_)
  rw [hlate]
  split
  · trivial
  · refine Prog.Tracks.bind (late_tracks (writeFile_writes path _)) (fun late ok _ => ?_)
    cases ok <;> trivial

theorem rename_tracks (path : Text) (hn : pathName path ≠ none) :
    (onDisk (renameFile (path ++ tmpSuffix) path)).Tracks
      (swapping (nameOf path) (nameOf (path ++ tmpSuffix))) (fun late _ => late = true) false := by
  have hnul : '\x00' ∉ path := fun hm => hn (if_pos hm)
  have htmp : pathName (path ++ tmpSuffix) = some (nameOf (path ++ tmpSuffix)) :=
    if_neg (fun hm => (List.mem_append.1 hm).elim hnul (by decide))
  have hconfig : pathName path = some (nameOf path) := if_neg hnul
  unfold renameFile
  rw [htmp, hconfig]
  refine ⟨.inl rfl, fun r => ?_⟩
  have hlate : (swapping (nameOf path) (nameOf (path ++ tmpSuffix))).after false
      (.sce (.remove (nameOf path))) r = true := by simp [swapping]
  rw [hlate]
  exact ⟨⟨rfl, rfl⟩, fun _ => rfl⟩

theorem crashSafeSwap_tracks (path original newText : Text) (hn : pathName path ≠ none) :
    (crashSafeSwap path original newText).Tracks (swapping (nameOf path) (nameOf (path ++ tmpSuffix)))
      (fun _ _ => True) false := by
  have hstage : (stage path original newText).Tracks (swapping (nameOf path) (nameOf (path ++ tmpSuffix)))
      (fun late staged => staged = true → late = true) false := by
    refine Prog.Tracks.bind (early_tracks (writeFile_apart path (bak_ne path) _)) (fun late _ hlate => ?_)
    rw [hlate.1]
    refine Prog.Tracks.bind (early_tracks (writeFile_apart path (tmp_ne path) _)) (fun late ok hlate => ?_)
    rw [hlate.1]
    cases ok with
    | false => exact fun h => absurd h Bool.false_ne_true
    | true => exact Prog.Tracks.bind (rename_tracks path hn) (fun late _ hlate _ => hlate)
  refine Prog.Tracks.bind hstage (fun late staged hlate => ?_)
  cases staged with
  | false => trivial
  | true =>
    rw [hlate rfl]
    exact verify_tracks path newText

/-! ### One system call -/

section

variable {path original newText : Text} {fs fs' : Files}

variable {n : Name}

theorem holdsComplete_congr (h : fs'.lookup n = fs.lookup n) :
    HoldsComplete original newText n fs' ↔ HoldsComplete original newText n fs := by
  unfold HoldsComplete isFile contentAt
  rw [h]

theorem holdsComplete_of_file {content : Bytes} (h : fs.lookup n = some (.file content)) :
    HoldsComplete original newText n fs ↔ Complete original newText content := by
  have hcontent := lookup_of_isFile (isFile_of_lookup h)
  rw [h] at hcontent
  unfold HoldsComplete
  rw [← Node.file.inj (Option.some.inj hcontent)]
  exact and_iff_right (isFile_of_lookup h)

theorem not_holdsComplete (h : fs.lookup n = none) : ¬ HoldsComplete original newText n fs := by
  rintro ⟨hfile, -⟩
  rw [lookup_of_isFile hfile] at h
  cases h

theorem othersHold_sceIo {c : SceCall} (hc : c.Writes (nameOf path)) (io : Io) :
    OthersHold path original newText (sceIo io c fs).2 ↔ OthersHold path original newText fs :=
  or_congr
    (holdsComplete_congr (lookup_sceIo_of_apart io (fun ht => bak_ne path (touches_of_writes hc _ ht).symm) fs))
    (holdsComplete_congr (lookup_sceIo_of_apart io (fun ht => tmp_ne path (touches_of_writes hc _ ht).symm) fs))

theorem survives_remove (hs : Survives path original newText fs) (io : Io) :
    Survives path original newText (sceIo io (.remove (nameOf path)) fs).2 ↔
      (io.works = true → isFile (nameOf path) fs = true → OthersHold path original newText fs) := by
  by_cases hgone : io.works = true ∧ isFile (nameOf path) fs = true
  · have hlookup : (sceIo io (.remove (nameOf path)) fs).2.lookup (nameOf path) = none := by
      simp only [sceIo, sceIoRemove, hgone.1, lookup_of_isFile hgone.2]
      exact Finmap.lookup_erase _ fs
    unfold Survives
    rw [othersHold_sceIo (c := .remove (nameOf path)) rfl]
    exact ⟨fun h _ _ => h.resolve_left (not_holdsComplete hlookup), fun h => .inr (h hgone.1 hgone.2)⟩
  · have hsame : (sceIo io (.remove (nameOf path)) fs).2 = fs := by
      simp only [sceIo, sceIoRemove]
      split
      next content hw hfile => exact absurd ⟨hw, isFile_of_lookup hfile⟩ hgone
      · rfl
    rw [hsame]
    exact iff_of_true hs (fun hw hfile => absurd ⟨hw, hfile⟩ hgone)

theorem survives_write (hs : Survives path original newText fs) (io : Io) (data : Bytes) :
    Survives path original newText (sceIo io (.write (nameOf path) data) fs).2 ↔
      (isFile (nameOf path) fs = true → OthersHold path original newText fs ∨
        Complete original newText (contentAt (nameOf path) fs ++ data.take io.wrote)) := by
  by_cases hfile : isFile (nameOf path) fs = true
  · have hlookup : (sceIo io (.write (nameOf path) data) fs).2.lookup (nameOf path) =
        some (.file (contentAt (nameOf path) fs ++ data.take io.wrote)) := by
      simp only [sceIo, lookup_of_isFile hfile]
      exact Finmap.lookup_insert fs
    unfold Survives
    rw [othersHold_sceIo (c := .write (nameOf path) data) rfl, holdsComplete_of_file hlookup]
    exact ⟨fun h _ => h.symm, fun h => (h hfile).symm⟩
  · have hsame : (sceIo io (.write (nameOf path) data) fs).2 = fs := by
      simp only [sceIo]
      split
      next old hold => exact absurd (isFile_of_lookup hold) hfile
      · rfl
    rw [hsame]
    exact iff_of_true hs (fun h => absurd h hfile)

theorem survives_openAppend (hs : Survives path original newText fs) (io : Io) :
    Survives path original newText (sceIo io (.openAppend (nameOf path)) fs).2 := by
  cases hnone : fs.lookup (nameOf path) with
  | none =>
    -- the file was not there, so another one is complete
    have hothers := hs.resolve_left (not_holdsComplete hnone)
    exact .inr ((othersHold_sceIo (c := .openAppend (nameOf path)) rfl io).2 hothers)
  | some node =>
    have hsame : (sceIo io (.openAppend (nameOf path)) fs).2 = fs := by
      simp only [sceIo, hnone]
      split
      next hnode => cases hnode
      · rfl
      · rfl
    rwa [hsame]

theorem survives_rename (hs : Survives path original newText fs) (io : Io) :
    Survives path original newText (sceIo io (.rename (nameOf (path ++ tmpSuffix)) (nameOf path)) fs).2 := by
  simp only [sceIo]
  split
  next node _ htmp hnone =>
    have hmoved : ((fs.erase (nameOf (path ++ tmpSuffix))).insert (nameOf path) node).lookup (nameOf path) =
        some node := Finmap.lookup_insert _
    obtain hconfig | hbak | hstaged := hs
    · exact absurd hconfig (not_holdsComplete hnone)
    · refine .inr (.inl ((holdsComplete_congr ?_).2 hbak))
      rw [Finmap.lookup_insert_of_ne _ (bak_ne path), Finmap.lookup_erase_ne (bak_ne_tmp path)]
    · -- the staged file is the config file now
      rw [lookup_of_isFile hstaged.1] at htmp
      rw [← Option.some.inj htmp] at hmoved ⊢
      exact .inl ((holdsComplete_of_file hmoved).2 hstaged.2)
  · exact hs

def Early (path original : Text) (late : Bool) (fs : Files) : Prop :=
  late = false → fs.lookup (nameOf path) = some (.file (utf8 original))

theorem survives_call_iff {late : Bool} {c : DiskCall}
    (hmay : (swapping (nameOf path) (nameOf (path ++ tmpSuffix))).may late c) (hearly : Early path original late fs)
    (hs : Survives path original newText fs) (io : Io) (next : c.Answer → DiskProg (Except SwapError Unit)) :
    Survives path original newText (disk io c fs).2 ↔ Spared path original newText (.call c next, fs) io := by
  cases c with
  | read n => exact iff_of_true hs trivial
  | sce c =>
    have hremove : ∀ next, Survives path original newText (sceIo io (.remove (nameOf path)) fs).2 ↔
        Spared path original newText (.call (.sce (.remove (nameOf path))) next, fs) io := fun next =>
      (survives_remove hs io).trans ⟨fun h _ => h, fun h => h rfl⟩
    cases late with
    | false =>
      obtain rfl | hapart := hmay
      · exact hremove next
      · -- calls about the other files leave the original where it is
        refine iff_of_true (.inl ((holdsComplete_of_file ?_).2 (.inl rfl))) ?_
        · exact (lookup_sceIo_of_apart io hapart fs).trans (hearly rfl)
        · cases c with
          | remove n | write n data => exact fun he => absurd he hapart
          | _ => trivial
    | true =>
      cases c with
      | remove n =>
        obtain rfl : n = nameOf path := hmay
        exact hremove next
      | openAppend n =>
        obtain rfl : n = nameOf path := hmay
        exact iff_of_true (survives_openAppend hs io) trivial
      | write n data =>
        obtain rfl : n = nameOf path := hmay
        exact (survives_write hs io data).trans ⟨fun h _ => h, fun h => h rfl⟩
      | rename source target =>
        obtain ⟨rfl, rfl⟩ := hmay
        exact iff_of_true (survives_rename hs io) trivial
      | sync n | close n => exact iff_of_true hs trivial
      | mkdir n => exact hmay.elim

theorem early_call {late : Bool} {c : DiskCall}
    (hmay : (swapping (nameOf path) (nameOf (path ++ tmpSuffix))).may late c) (hearly : Early path original late fs)
    (io : Io) :
    Early path original ((swapping (nameOf path) (nameOf (path ++ tmpSuffix))).after late c (disk io c fs).1)
      (disk io c fs).2 := by
  cases late with
  | true => exact fun h => by cases h
  | false =>
    cases c with
    | read n => exact fun _ => hearly rfl
    | sce c =>
      obtain rfl | hapart := hmay
      · intro h
        simp [swapping] at h
      · exact fun _ => (lookup_sceIo_of_apart io hapart fs).trans (hearly rfl)

end

/-- **When the text survives**: from a config file with the original text, however the system calls go and wherever the
swap is cut short, one of the config file, its backup and its staged file holds the whole original or the whole new
text, exactly when every call spares the last complete copy. -/
theorem swap_survives_iff (path original newText : Text) (fs : Files) (hconfig : HoldsText path original fs)
    (ios : List Io) :
    (∀ ios₁, ios₁ <+: ios → Survives path original newText
      (run SwapCut.step (crashSafeSwap path original newText, fs) ios₁).2) ↔
      Along SwapCut.step (Spared path original newText) (crashSafeSwap path original newText, fs) ios := by
  obtain ⟨n, hname, hfile⟩ := Option.bind_eq_some_iff.1 hconfig
  have hn : pathName path ≠ none := by
    rw [hname]
    exact Option.some_ne_none n
  obtain rfl : n = nameOf path := pathName_eq hname
  have hstep : ∀ (s : SwapCut) (io : Io),
      Prog.At (swapping (nameOf path) (nameOf (path ++ tmpSuffix))) (Early path original) s →
      Survives path original newText s.2 →
      (Survives path original newText (s.step io).2 ↔ Spared path original newText s io) := by
    rintro ⟨m, fs⟩ io ⟨late, htracks, hearly⟩ hs
    cases m with
    | done r => exact iff_of_true hs trivial
    | call c next => exact survives_call_iff htracks.1 hearly hs io next
  exact run_always_iff_of_inv _ (fun s io hat _ => hat.resume (fun _ _ _ _ hmay hearly => early_call hmay hearly io))
    hstep ios _ ⟨false, crashSafeSwap_tracks path original newText hn, fun _ => hfile⟩
    (.inl ((holdsComplete_of_file hfile).2 (.inl rfl)))

def wellRun : List Io := (List.range 13).map (failing [])

theorem swap_survives_well :
    Survives configFile "a = 1\n".toList "a = 2\n".toList
      (run SwapCut.step (crashSafeSwap configFile "a = 1\n".toList "a = 2\n".toList, onlyConfig "a = 1\n".toList)
        wellRun).2 :=
  (swap_survives_iff configFile "a = 1\n".toList "a = 2\n".toList (onlyConfig "a = 1\n".toList)
    (by unfold HoldsText; decide) wellRun).2 (by decide +kernel) wellRun List.prefix_rfl

/-- **Both texts are lost**: the backup cannot be opened, and the staged file, renamed over the config file, cannot be
read and is removed for the direct write; there the swap is cut short. -/
theorem swap_loses_both :
    let ios := (List.range 11).map (failing [1, 9])
    ¬ Survives configFile "a = 1\n".toList "a = 2\n".toList
      (run SwapCut.step (crashSafeSwap configFile "a = 1\n".toList "a = 2\n".toList, onlyConfig "a = 1\n".toList)
        ios).2 := by
  decide +kernel

end TailscaleVita.Demo
