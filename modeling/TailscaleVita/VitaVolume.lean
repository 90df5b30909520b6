import Mathlib.Data.List.Infix
import TailscaleVita.VitaCrash
/-!
# VitaVolume — the system calls of `vita_fs` on a tree of directories (`vita-fs/src/vita.rs`, `host.rs`)

A volume says what there is at each place. The kernel finds the places of names in its own way (`locate`: two names may
be one place), refuses what does not fit the tree, and may fail besides.
-/
namespace TailscaleVita.Fs

abbrev Place := List Name

structure Volume where
  node : Place → Option Node
  rooted : ∀ p x, node (p ++ [x]) ≠ none → node p = some .dir

namespace Volume

def IsFile (v : Volume) (p : Place) : Prop := ∃ content, v.node p = some (.file content)

instance (v : Volume) (p : Place) : Decidable (v.IsFile p) :=
  match h : v.node p with
  | some (.file content) => isTrue ⟨content, h⟩
  | some .dir => isFalse (fun ⟨_, hfile⟩ => by rw [h] at hfile; cases hfile)
  | none => isFalse (fun ⟨_, hfile⟩ => by rw [h] at hfile; cases hfile)

def HasParent (v : Volume) (p : Place) : Prop := p ≠ [] ∧ v.node p.dropLast = some .dir

instance (v : Volume) (p : Place) : Decidable (v.HasParent p) := inferInstanceAs (Decidable (_ ∧ _))

variable {p : Place}

theorem dir_above (v : Volume) : ∀ {rest : Place}, rest ≠ [] → v.node (p ++ rest) ≠ none →
    v.node p = some .dir := by
  intro rest
  induction rest using List.reverseRecOn with
  | nil => exact fun hne => absurd rfl hne
  | append_singleton rest x ih =>
    intro _ hnode
    rw [← List.append_assoc] at hnode
    have hdir := v.rooted _ x hnode
    by_cases hrest : rest = []
    · rwa [hrest, List.append_nil] at hdir
    · exact ih hrest (by rw [hdir]; exact Option.some_ne_none _)

variable {v : Volume}

theorem nothing_below_file (h : v.IsFile p) (x : Name) : v.node (p ++ [x]) = none := by
  by_contra hnode
  obtain ⟨content, hfile⟩ := h
  rw [v.rooted p x hnode] at hfile
  cases hfile

theorem hasParent_of_node (hp : p ≠ []) (h : v.node p ≠ none) : v.HasParent p := by
  refine ⟨hp, v.rooted p.dropLast (p.getLast hp) ?_⟩
  rwa [List.dropLast_append_getLast hp]

/-! ## What changes a volume -/

def erase (v : Volume) (p : Place) (h : ∀ x, v.node (p ++ [x]) = none) : Volume where
  node q := if q = p then none else v.node q
  rooted q x hnode := by
    split at hnode
    · exact absurd rfl hnode
    · rw [if_neg]
      · exact v.rooted q x hnode
      · rintro rfl
        exact hnode (h x)

def put (v : Volume) (p : Place) (node : Node) (hplace : v.node p ≠ none ∨ v.HasParent p)
    (h : v.node p = some .dir → node = .dir) : Volume where
  node q := if q = p then some node else v.node q
  rooted q x hnode := by
    by_cases hq : q = p
    · rw [if_pos hq]
      by_cases hx : q ++ [x] = p
      · exact absurd (congrArg List.length (hx.trans hq.symm)) (by simp)
      · rw [if_neg hx, hq] at hnode
        rw [h (v.rooted p x hnode)]
    · rw [if_neg hq]
      by_cases hx : q ++ [x] = p
      · rcases hplace with hold | hparent
        · rw [← hx] at hold
          exact v.rooted q x hold
        · have hdir := hparent.2
          rwa [← hx, List.dropLast_concat] at hdir
      · rw [if_neg hx] at hnode
        exact v.rooted q x hnode

structure Movable (v : Volume) (f t : Place) : Prop where
  source : v.node f ≠ none
  target : v.node t = none
  parent : v.HasParent t
  apart : ¬ f <+: t

instance (v : Volume) (f t : Place) : Decidable (v.Movable f t) :=
  decidable_of_iff (v.node f ≠ none ∧ v.node t = none ∧ v.HasParent t ∧ ¬ f <+: t)
    ⟨fun h => ⟨h.1, h.2.1, h.2.2.1, h.2.2.2⟩, fun h => ⟨h.source, h.target, h.parent, h.apart⟩⟩

def movedNode (v : Volume) (f t q : Place) : Option Node :=
  if t <+: q then v.node (f ++ q.drop t.length) else if f <+: q then none else v.node q

def move (v : Volume) (f t : Place) (h : v.Movable f t) : Volume where
  node := v.movedNode f t
  rooted q x hnode := by
    unfold movedNode at hnode ⊢
    by_cases hq : t <+: q
    · have hx : t <+: q ++ [x] := hq.trans (List.prefix_append q [x])
      rw [if_pos hx, List.drop_append_of_le_length hq.length_le, ← List.append_assoc] at hnode
      rw [if_pos hq]
      exact v.rooted _ x hnode
    · rw [if_neg hq]
      by_cases hx : t <+: q ++ [x]
      · -- `q` is the directory that `t` comes to be in
        have ht : t = q ++ [x] := (List.prefix_concat_iff.1 hx).resolve_right hq
        have hparent := h.parent.2
        rw [ht, List.dropLast_concat] at hparent
        rw [if_neg, hparent]
        intro hf
        exact h.apart (hf.trans (ht ▸ List.prefix_append q [x]))
      · rw [if_neg hx] at hnode
        split at hnode
        · exact absurd rfl hnode
        next hf =>
          rw [if_neg (fun hf' => hf (hf'.trans (List.prefix_append q [x])))]
          exact v.rooted q x hnode

theorem node_move {f t : Place} (h : v.Movable f t) : (v.move f t h).node t = v.node f := by
  show v.movedNode f t t = _
  unfold movedNode
  rw [if_pos (List.prefix_refl t), List.drop_length, List.append_nil]

/-! ## The kernel -/

def remove (works : Bool) (p : Place) (v : Volume) : Bool × Volume :=
  if h : works = true ∧ v.IsFile p then (true, v.erase p (nothing_below_file h.2)) else (false, v)

def rename (works : Bool) (f t : Place) (v : Volume) : Bool × Volume :=
  if h : works = true ∧ v.Movable f t then (true, v.move f t h.2) else (false, v)

def mkdir (works : Bool) (p : Place) (v : Volume) : Volume :=
  if h : works = true ∧ v.node p = none ∧ v.HasParent p then v.put p .dir (.inr h.2.2) (fun _ => rfl) else v

def openAppend (works : Bool) (p : Place) (v : Volume) : Bool × Volume :=
  if works = true ∧ v.IsFile p then (true, v)
  else if h : works = true ∧ v.node p = none ∧ v.HasParent p then
    (true, v.put p (.file []) (.inr h.2.2) (fun hdir => by rw [h.2.1] at hdir; cases hdir))
  else (false, v)

def extend (p : Place) (more : Bytes) (v : Volume) : Volume :=
  match h : v.node p with
  | some (.file old) =>
    v.put p (.file (old ++ more)) (.inl (by rw [h]; exact Option.some_ne_none _))
      (fun hdir => by rw [h] at hdir; cases hdir)
  | _ => v

end Volume

def kernel (locate : Name → Option Place) (io : Sce) : (c : SceCall) → Volume → c.Answer × Volume
  | .mkdir n, v => ((), (locate n).elim v (fun p => v.mkdir true p))
  | .remove n, v => (locate n).elim (false, v) (fun p => v.remove io.removes p)
  | .openAppend n, v => (locate n).elim (false, v) (fun p => v.openAppend io.opens p)
  | .write n data, v =>
    (locate n).elim (0, v) (fun p =>
      match io.stops with
      | none => (data.length, v.extend p data)
      | some k => (0, v.extend p (data.take k)))
  | .sync _, v | .close _, v => ((), v)
  | .rename a b, v =>
    match locate a, locate b with
    | some f, some t => v.rename io.renames f t
    | _, _ => (false, v)

def placeOf (locate : Name → Option Place) (path : Text) : Option Place := (pathName path).bind locate

/-! ## The host -/

namespace Volume

def Empty (v : Volume) (p : Place) : Prop := ∀ x, v.node (p ++ [x]) = none

open Classical in
noncomputable def posixRename (f t : Place) (v : Volume) : Bool × Volume :=
  if v.node f ≠ none ∧ f = t then (true, v)
  else if h : v.Movable f t then (true, v.move f t h)
  else if h : ∃ he : v.Empty t, (v.IsFile f ↔ v.IsFile t) ∧ (v.erase t he).Movable f t then
    (true, (v.erase t h.1).move f t h.2.2)
  else (false, v)

variable {f t : Place} {v : Volume}

theorem Movable.ne (h : v.Movable f t) : f ≠ t := fun he =>
  h.apart (he ▸ List.prefix_refl f)

theorem IsFile.not_movable (h : v.IsFile t) : ¬ v.Movable f t := fun hm => by
  obtain ⟨content, hcontent⟩ := h
  have hnone := hm.target
  rw [hcontent] at hnone
  cases hnone

theorem posixRename_free (h : v.Movable f t) : v.posixRename f t = (true, v.move f t h) := by
  have hsame : ¬ (v.node f ≠ none ∧ f = t) := fun hsame => h.ne hsame.2
  unfold posixRename
  rw [if_neg hsame, dif_pos h]

theorem posixRename_file (hfile : v.IsFile f) (htarget : v.IsFile t)
    (h : (v.erase t (nothing_below_file htarget)).Movable f t) :
    v.posixRename f t = (true, (v.erase t (nothing_below_file htarget)).move f t h) := by
  have hsame : ¬ (v.node f ≠ none ∧ f = t) := fun hsame => h.ne hsame.2
  unfold posixRename
  rw [if_neg hsame, dif_neg htarget.not_movable, dif_pos ⟨nothing_below_file htarget, iff_of_true hfile htarget, h⟩]

theorem posixRename_dir (hsource : ¬ v.IsFile f) (htarget : v.IsFile t) (hne : f ≠ t) :
    v.posixRename f t = (false, v) := by
  have hsame : ¬ (v.node f ≠ none ∧ f = t) := fun hsame => hne hsame.2
  have hunlike : ¬ ∃ he : v.Empty t, (v.IsFile f ↔ v.IsFile t) ∧ (v.erase t he).Movable f t := fun h =>
    hsource (h.2.1.2 htarget)
  unfold posixRename
  rw [if_neg hsame, dif_neg htarget.not_movable, dif_neg hunlike]

end Volume

noncomputable def hostRename (locate : Name → Option Place) (source target : Text) (v : Volume) : Bool × Volume :=
  match placeOf locate source, placeOf locate target with
  | some f, some t => v.posixRename f t
  | _, _ => (false, v)

/-! ## The Vita's `rename` -/

section

variable (locate : Name → Option Place) (io : Sce) (v : Volume) (source target : Text)

def vitaRename : Bool × Volume := (renameFile source target).exec (kernel locate io) v

structure Removes (t : Place) : Prop where
  named : pathName source ≠ none
  target : placeOf locate target = some t
  works : io.removes = true
  file : v.IsFile t

inductive Renamed : Bool × Volume → Prop where
  | refused (hkept : ∀ t, ¬ Removes locate io v source target t) : Renamed (false, v)
  | moved {f t : Place} (hkept : ∀ t, ¬ Removes locate io v source target t) (hf : placeOf locate source = some f)
      (ht : placeOf locate target = some t) (hm : v.Movable f t) : Renamed (true, v.move f t hm)
  | lost {t : Place} (hr : Removes locate io v source target t)
      (hno : ¬ (io.renames = true ∧ ∃ f, placeOf locate source = some f ∧ v.node f ≠ none ∧ ¬ f <+: t)) :
      Renamed (false, v.erase t (Volume.nothing_below_file hr.file))
  | replaced {f t : Place} (hr : Removes locate io v source target t) (hf : placeOf locate source = some f)
      (hio : io.renames = true) (hm : (v.erase t (Volume.nothing_below_file hr.file)).Movable f t) :
      Renamed (true, (v.erase t (Volume.nothing_below_file hr.file)).move f t hm)

variable {locate io v source target}

theorem movable_erase {f t : Place} (h : v.IsFile t) :
    (v.erase t (Volume.nothing_below_file h)).Movable f t ↔ v.node f ≠ none ∧ ¬ f <+: t := by
  have hother : ∀ {q : Place}, q ≠ t → (v.erase t (Volume.nothing_below_file h)).node q = v.node q :=
    fun hq => if_neg hq
  obtain ⟨content, hcontent⟩ := id h
  constructor
  · intro hm
    have hsource := hm.source
    rw [hother hm.ne] at hsource
    exact ⟨hsource, hm.apart⟩
  · rintro ⟨hsource, hapart⟩
    have hne : f ≠ t := fun he => hapart (he ▸ List.prefix_refl f)
    have ht : t ≠ [] := by
      rintro rfl
      have hroot := v.dir_above hne (p := []) hsource
      rw [hcontent] at hroot
      cases hroot
    have hparent := Volume.hasParent_of_node ht (by rw [hcontent]; exact Option.some_ne_none _)
    have hup : t.dropLast ≠ t := fun he => by
      have hlen := congrArg List.length he
      rw [List.length_dropLast] at hlen
      have := List.length_pos_iff.2 ht
      omega
    exact ⟨by rwa [hother hne], if_pos rfl, ⟨ht, by rw [hother hup]; exact hparent.2⟩, hapart⟩

theorem renamed : Renamed locate io v source target (vitaRename locate io v source target) := by
  unfold vitaRename renameFile
  cases hn : pathName source with
  | none => exact .refused (fun t hr => hr.named hn)
  | some n =>
    cases hm : pathName target with
    | none => exact .refused (fun t hr => by have ht := hr.target; unfold placeOf at ht; rw [hm] at ht; cases ht)
    | some m =>
      have hplaces : placeOf locate source = locate n ∧ placeOf locate target = locate m := by
        unfold placeOf
        rw [hn, hm]
        exact ⟨rfl, rfl⟩
      show Renamed locate io v source target (kernel locate io (.rename n m) (kernel locate io (.remove m) v).2)
      cases ht : locate m with
      | none =>
        have hkernel : kernel locate io (.rename n m) (kernel locate io (.remove m) v).2 = (false, v) := by
          simp only [kernel, ht, Option.elim]
          cases locate n <;> rfl
        rw [hkernel]
        exact .refused (fun t hr => by have hplace := hr.target; rw [hplaces.2, ht] at hplace; cases hplace)
      | some t =>
        have htarget : placeOf locate target = some t := hplaces.2.trans ht
        by_cases hremove : io.removes = true ∧ v.IsFile t
        · have hr : Removes locate io v source target t :=
            ⟨by rw [hn]; exact Option.some_ne_none n, htarget, hremove.1, hremove.2⟩
          have hgone : (kernel locate io (.remove m) v).2 = v.erase t (Volume.nothing_below_file hr.file) := by
            simp [kernel, ht, Volume.remove, dif_pos hremove]
          rw [hgone]
          cases hf : locate n with
          | none =>
            simp only [kernel, hf]
            exact .lost hr (fun ⟨_, f, hplace, _⟩ => by rw [hplaces.1, hf] at hplace; cases hplace)
          | some f =>
            have hsource : placeOf locate source = some f := hplaces.1.trans hf
            simp only [kernel, hf, ht, Volume.rename]
            split
            next hworks => exact .replaced hr hsource hworks.1 hworks.2
            next hfails =>
              refine .lost hr (fun ⟨hio, f', hplace, hnode⟩ => ?_)
              rw [hsource] at hplace
              cases hplace
              exact hfails ⟨hio, (movable_erase hr.file).2 hnode⟩
        · have hkept : ∀ t', ¬ Removes locate io v source target t' := fun t' hr => by
            have hplace := hr.target
            rw [htarget] at hplace
            cases hplace
            exact hremove ⟨hr.works, hr.file⟩
          have hsame : (kernel locate io (.remove m) v).2 = v := by
            simp [kernel, ht, Volume.remove, dif_neg hremove]
          rw [hsame]
          cases hf : locate n with
          | none =>
            simp only [kernel, hf]
            exact .refused hkept
          | some f =>
            simp only [kernel, hf, ht, Volume.rename]
            split
            next hworks => exact .moved hkept (hplaces.1.trans hf) htarget hworks.2
            · exact .refused hkept

end

end TailscaleVita.Fs
