import TailscaleVita.FtpSession
import TailscaleVita.VitaVolume
/-!
# FtpRename — renaming over what is there (`vita-fs/src/vita.rs`, `ts-ftp/src/session.rs`)

The Vita's `rename` removes its target and then renames, and does not look back: when the second call fails, the target
is gone and nothing has come in its place.
-/
namespace TailscaleVita.Ftp

open Fs (Name Place Sce Volume vitaRename hostRename placeOf Removes Renamed renamed movable_erase)

section

variable (locate : Name → Option Place) (io : Sce) (v : Volume) (source target : Text)

/-- A rename that is safe: one that fails leaves its target, one from a file to itself leaves the file, and one
that succeeds does what it does on the host. -/
structure SafeRename : Prop where
  error : (vitaRename locate io v source target).1 = false →
    (placeOf locate target).bind (vitaRename locate io v source target).2.node = (placeOf locate target).bind v.node
  self : ∀ p, placeOf locate source = some p → placeOf locate target = some p → v.IsFile p →
    (vitaRename locate io v source target).2.node p = v.node p
  success : (vitaRename locate io v source target).1 = true →
    (vitaRename locate io v source target).2 = (hostRename locate source target v).2

/-- A file is removed, and it is not another file that comes in its place. -/
def Clobbers : Prop :=
  ∃ t, Removes locate io v source target t ∧
    ¬ (io.renames = true ∧ ∃ f, placeOf locate source = some f ∧ v.IsFile f ∧ f ≠ t)

def Strands : Prop :=
  ∃ t, Removes locate io v source target t ∧
    ¬ (io.renames = true ∧ ∃ f, placeOf locate source = some f ∧ v.node f ≠ none ∧ ¬ f <+: t)

variable {locate io v source target}

theorem apart_of_files {f t : Place} (hf : v.IsFile f) (ht : v.IsFile t) (hne : f ≠ t) : ¬ f <+: t := by
  rintro ⟨rest, rfl⟩
  obtain ⟨content, hcontent⟩ := ht
  obtain ⟨content', hcontent'⟩ := hf
  have hrest : rest ≠ [] := by
    rintro rfl
    exact hne (List.append_nil f).symm
  have hdir := v.dir_above hrest (by rw [hcontent]; exact Option.some_ne_none _)
  rw [hdir] at hcontent'
  cases hcontent'

theorem node_ne_none {p : Place} (h : v.IsFile p) : v.node p ≠ none := by
  obtain ⟨content, hcontent⟩ := h
  rw [hcontent]
  exact Option.some_ne_none _

theorem safeRename_of_not_clobbers (h : ¬ Clobbers locate io v source target) :
    SafeRename locate io v source target := by
  have hspec : Renamed locate io v source target (vitaRename locate io v source target) := renamed
  generalize hres : vitaRename locate io v source target = res at hspec
  cases hspec with
  | refused hkept =>
    exact ⟨fun _ => by rw [hres], fun p _ _ _ => by rw [hres], fun htrue => by rw [hres] at htrue; cases htrue⟩
  | @moved f t hkept hf ht hm =>
    refine ⟨fun hfalse => ?_, fun p hp ht' hfile => ?_, fun _ => ?_⟩
    · rw [hres] at hfalse
      cases hfalse
    · rw [ht] at ht'
      cases ht'
      exact absurd hm hfile.not_movable
    · rw [hres]
      unfold hostRename
      rw [hf, ht]
      simp [Volume.posixRename_free hm]
  | @lost t hr hno =>
    refine absurd ⟨t, hr, ?_⟩ h
    rintro ⟨hio, f, hf, hfile, hne⟩
    exact hno ⟨hio, f, hf, node_ne_none hfile, apart_of_files hfile hr.file hne⟩
  | @replaced f t hr hf hio hm =>
    have hfile : v.IsFile f := by
      by_contra hnot
      refine h ⟨t, hr, ?_⟩
      rintro ⟨_, f', hf', hfile, _⟩
      rw [hf] at hf'
      cases hf'
      exact hnot hfile
    refine ⟨fun hfalse => ?_, fun p hp ht hfile => ?_, fun _ => ?_⟩
    · rw [hres] at hfalse
      cases hfalse
    · rw [hf] at hp
      rw [hr.target] at ht
      cases hp
      cases ht
      exact absurd rfl hm.ne
    · rw [hres]
      unfold hostRename
      rw [hf, hr.target]
      simp [Volume.posixRename_file hfile hr.file hm]

theorem not_safeRename_of_clobbers (h : Clobbers locate io v source target) :
    ¬ SafeRename locate io v source target := by
  intro hsafe
  obtain ⟨t, hr, hnot⟩ := h
  obtain ⟨content, hcontent⟩ := id hr.file
  have hspec : Renamed locate io v source target (vitaRename locate io v source target) := renamed
  generalize hres : vitaRename locate io v source target = res at hspec
  cases hspec with
  | refused hkept | moved hkept => exact hkept t hr
  | @lost t' hr' hno =>
    have ht := hr'.target
    rw [hr.target] at ht
    cases ht
    -- the target is gone
    have herror := hsafe.error (by rw [hres])
    rw [hres, hr.target] at herror
    have hgone : (none : Option Fs.Node) = v.node t := (if_pos rfl).symm.trans herror
    rw [hcontent] at hgone
    cases hgone
  | @replaced f t' hr' hf hio hm =>
    have ht := hr'.target
    rw [hr.target] at ht
    cases ht
    -- a directory has come where the host leaves the file
    have hdir : ¬ v.IsFile f := fun hfile => hnot ⟨hio, f, hf, hfile, hm.ne⟩
    have hsuccess := hsafe.success (by rw [hres])
    rw [hres] at hsuccess
    unfold hostRename at hsuccess
    rw [hf, hr.target] at hsuccess
    simp only [Volume.posixRename_dir hdir hr.file hm.ne] at hsuccess
    have hnode := congrArg (fun w : Volume => w.node t) hsuccess
    simp only [Volume.node_move] at hnode
    refine hdir ⟨content, ?_⟩
    rw [← hcontent, ← hnode]
    exact (if_neg hm.ne).symm

theorem changed_iff_strands (hfails : (vitaRename locate io v source target).1 = false) :
    (vitaRename locate io v source target).2 ≠ v ↔ Strands locate io v source target := by
  have hspec : Renamed locate io v source target (vitaRename locate io v source target) := renamed
  generalize vitaRename locate io v source target = res at hspec hfails
  cases hspec with
  | refused hkept => exact ⟨fun h => absurd rfl h, fun ⟨t, hr, _⟩ => absurd hr (hkept t)⟩
  | moved => cases hfails
  | @lost t hr hno =>
    refine ⟨fun _ => ⟨t, hr, hno⟩, fun _ hsame => ?_⟩
    have hnode := congrArg (fun w : Volume => w.node t) hsame
    have hgone : (none : Option Fs.Node) = v.node t := (if_pos rfl).symm.trans hnode
    exact node_ne_none hr.file hgone.symm
  | replaced => cases hfails

theorem fails_of_strands (h : Strands locate io v source target) :
    (vitaRename locate io v source target).1 = false := by
  obtain ⟨t, hr, hno⟩ := h
  have hspec : Renamed locate io v source target (vitaRename locate io v source target) := renamed
  generalize vitaRename locate io v source target = res at hspec
  cases hspec with
  | refused | lost => rfl
  | moved hkept => exact absurd hr (hkept t)
  | @replaced f t' hr' hf hio hm =>
    have ht := hr'.target
    rw [hr.target] at ht
    cases ht
    exact absurd ⟨hio, f, hf, (movable_erase hr.file).1 hm⟩ hno

end

def renameEnv (locate : Name → Option Place) (io : Sce) (answers : (c : FtpCall) → c.Answer) :
    (c : FtpCall) → Volume → c.Answer × Volume
  | .fs (.rename source target), v => vitaRename locate io v source target
  | c, v => (answers c, v)

section

variable (locate : Name → Option Place) (io : Sce) (v : Volume) (answers : (c : FtpCall) → c.Answer)

def Refused (s : Session) (arg : Text) : Prop :=
  ∃ text, .reply 550 text ∈ (s.doRnto arg).calls (renameEnv locate io answers) v

theorem rnto_changes_iff (s : Session) (arg : Text) :
    (Refused locate io v answers s arg → ((s.doRnto arg).exec (renameEnv locate io answers) v).2 = v) ↔
      ¬ ∃ source vpath, s.renameFrom = some source ∧ s.vfs.resolve s.cwd arg = some vpath ∧
        Strands locate io v (s.vfs.toReal source) (s.vfs.toReal vpath) := by
  unfold Refused Session.doRnto
  cases hfrom : s.renameFrom with
  | none => exact iff_of_true (fun _ => rfl) (fun ⟨_, _, hsome, _⟩ => by cases hsome)
  | some source =>
    simp only
    cases hto : s.vfs.resolve s.cwd arg with
    | none => exact iff_of_true (fun _ => rfl) (fun ⟨_, _, _, hsome, _⟩ => by cases hsome)
    | some vpath =>
      have hexists : (∃ source' vpath', some source = some source' ∧ some vpath = some vpath' ∧
          Strands locate io v (s.vfs.toReal source') (s.vfs.toReal vpath')) ↔
          Strands locate io v (s.vfs.toReal source) (s.vfs.toReal vpath) := by
        refine ⟨fun ⟨_, _, hs, ht, h⟩ => ?_, fun h => ⟨source, vpath, rfl, rfl, h⟩⟩
        cases hs
        cases ht
        exact h
      rw [hexists]
      show ((∃ text, FtpCall.reply 550 text ∈ FtpCall.fs (.rename _ _) :: Prog.calls _ (if (vitaRename locate io v
        (s.vfs.toReal source) (s.vfs.toReal vpath)).1 = true then _ else _) (vitaRename locate io v _ _).2) →
        (Prog.exec _ (if (vitaRename locate io v _ _).1 = true then _ else _) (vitaRename locate io v _ _).2).2 = v) ↔ _
      cases hok : (vitaRename locate io v (s.vfs.toReal source) (s.vfs.toReal vpath)).1 with
      | true =>
        refine iff_of_true (fun ⟨text, hreply⟩ => ?_) (fun hstrands => ?_)
        · rcases List.mem_cons.1 hreply with hreply | hreply
          · cases hreply
          · cases List.mem_singleton.1 hreply
        · rw [fails_of_strands hstrands] at hok
          cases hok
      | false =>
        rw [← changed_iff_strands hok, not_not]
        exact ⟨fun h => h ⟨_, List.mem_cons_of_mem _ List.mem_cons_self⟩, fun hsame _ => hsame⟩

end

/-- **Renaming.**  On any volume and however its system calls go, a rename is safe exactly when it does not remove a
file without putting another file in its place; and an `RNTO` that is answered 550 has changed something exactly when
the rename removed its target and put nothing there. -/
theorem vita_rename_safe_iff (locate : Name → Option Place) (io : Sce) (v : Volume) :
    (∀ source target, SafeRename locate io v source target ↔ ¬ Clobbers locate io v source target) ∧
    ∀ (answers : (c : FtpCall) → c.Answer) (s : Session) (arg : Text),
      (Refused locate io v answers s arg → ((s.doRnto arg).exec (renameEnv locate io answers) v).2 = v) ↔
        ¬ ∃ source vpath, s.renameFrom = some source ∧ s.vfs.resolve s.cwd arg = some vpath ∧
          Strands locate io v (s.vfs.toReal source) (s.vfs.toReal vpath) :=
  ⟨fun _ _ => ⟨fun hsafe hclobbers => not_safeRename_of_clobbers hclobbers hsafe, safeRename_of_not_clobbers⟩,
    rnto_changes_iff locate io v⟩

def oneFile (name : Name) (content : Bytes) : Volume where
  node p := if p = [] then some .dir else if p = [name] then some (.file content) else none
  rooted p x hnode := by
    rw [if_neg (List.append_ne_nil_of_right_ne_nil p (List.cons_ne_nil x []))] at hnode
    split at hnode
    next hp =>
      have hlen := congrArg List.length hp
      rw [List.length_append, List.length_singleton, List.length_singleton] at hlen
      rw [if_pos (List.length_eq_zero_iff.1 (by omega))]
    · exact absurd rfl hnode

theorem vita_rename_missing_source :
    let v := oneFile (utf8 "ux0:save".toList) [1, 2, 3]
    let res := vitaRename (fun n => some [n]) {} v "ux0:/typo".toList "ux0:/save".toList
    v.node [utf8 "ux0:save".toList] = some (.file [1, 2, 3]) ∧ res.1 = false ∧
      res.2.node [utf8 "ux0:save".toList] = none := by
  decide

end TailscaleVita.Ftp
