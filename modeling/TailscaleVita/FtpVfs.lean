import TailscaleVita.StdText
/-!
# FtpVfs — client paths and real paths (`ts-ftp/src/vfs.rs`)

A client path is resolved against the current directory into segments, none of which leads upwards, and the real path
is the root followed by them. `Jailed` says what the root is for.
-/
namespace TailscaleVita.Ftp

open List

structure Vfs where
  root : Text
  allowDevicePaths : Bool
deriving DecidableEq

def trimEndSlashes (s : Text) : Text := (s.reverse.dropWhile (fun c => decide (c = '/'))).reverse

def Vfs.new (root : Text) (allowDevicePaths : Bool) : Vfs := ⟨trimEndSlashes root, allowDevicePaths⟩

def resolveSegs (segs : List Text) : List Text → Option (List Text)
  | [] => some segs
  | seg :: rest =>
    if seg = [] ∨ seg = ".".toList then resolveSegs segs rest
    else if seg = "..".toList then
      match segs with
      | [] => none
      | _ :: _ => resolveSegs segs.dropLast rest
    else resolveSegs (segs ++ [seg]) rest

def vpathOf (segs : List Text) : Text := if segs = [] then ['/'] else '/' :: ['/'].intercalate segs

def Vfs.resolve (_ : Vfs) (cwd arg : Text) : Option Text :=
  let base := if arg.head? = some '/' then ['/'] else cwd
  (resolveSegs [] (base.splitOn '/' ++ arg.splitOn '/')).map vpathOf

def isDevice (seg : Text) : Bool :=
  decide (2 ≤ utf8Len seg) && decide (seg.getLast? = some ':') && decide (':' ∉ seg.dropLast)

def Vfs.toReal (v : Vfs) (vpath : Text) : Text :=
  let real := if vpath = ['/'] then v.root else v.root ++ vpath
  match vpath with
  | '/' :: rest => if v.allowDevicePaths && isDevice ((rest.splitOn '/').headD []) then rest else real
  | _ => real

def splitParent (vpath : Text) : Text × Text :=
  match rsplitOnce '/' vpath with
  | some ([], name) => (['/'], name)
  | some (parent, name) => (parent, name)
  | none => (['/'], vpath)

structure Plain (seg : Text) : Prop where
  ne_nil : seg ≠ []
  ne_dot : seg ≠ ".".toList
  ne_dotDot : seg ≠ "..".toList
  no_slash : '/' ∉ seg

def under (root : Text) (segs : List Text) : Text := root ++ segs.flatMap ('/' :: ·)

/-- A path in the jail: the root, or plain segments below it. -/
def Jailed (root path : Text) : Prop := ∃ segs, (∀ s ∈ segs, Plain s) ∧ path = under root segs

variable {c : Char}

theorem notMem_of_mem_splitOn : ∀ {s seg : Text}, seg ∈ s.splitOn c → c ∉ seg
  | [], seg, h => by
    rw [splitOn_nil, mem_singleton] at h
    rw [h]
    exact not_mem_nil
  | x :: s, seg, h => by
    have ih : ∀ seg' ∈ s.splitOn c, c ∉ seg' := fun seg' h' => notMem_of_mem_splitOn h'
    rw [List.splitOn, splitOnP_cons_eq_if_modifyHead] at h
    split at h
    · rcases mem_cons.1 h with rfl | h
      · exact not_mem_nil
      · exact ih seg h
    next hx =>
      have hne : c ≠ x := fun he => hx (by rw [he]; exact beq_self_eq_true x)
      obtain ⟨first, others, hsplit⟩ := exists_cons_of_ne_nil (splitOnP_ne_nil (· == c) s)
      rw [hsplit, modifyHead_cons] at h
      rw [List.splitOn, hsplit] at ih
      rcases mem_cons.1 h with rfl | h
      · rw [mem_cons, not_or]
        exact ⟨hne, ih first mem_cons_self⟩
      · exact ih seg (mem_cons_of_mem first h)

theorem resolveSegs_plain : ∀ (rest segs : List Text) {out : List Text}, (∀ s ∈ rest, '/' ∉ s) →
    (∀ s ∈ segs, Plain s) → resolveSegs segs rest = some out → ∀ s ∈ out, Plain s
  | [], segs, out, _, hsegs, h => by
    cases h
    exact hsegs
  | seg :: rest, segs, out, hrest, hsegs, h => by
    have hrest' : ∀ s ∈ rest, '/' ∉ s := fun s hs => hrest s (mem_cons_of_mem seg hs)
    unfold resolveSegs at h
    split at h
    · exact resolveSegs_plain rest segs hrest' hsegs h
    next hskip =>
      rw [not_or] at hskip
      split at h
      · split at h
        · cases h
        · exact resolveSegs_plain rest _ hrest' (fun s hs => hsegs s (dropLast_subset _ hs)) h
      next hup =>
        refine resolveSegs_plain rest _ hrest' (fun s hs => ?_) h
        rcases mem_append.1 hs with hs | hs
        · exact hsegs s hs
        · rw [mem_singleton.1 hs]
          exact ⟨hskip.1, hskip.2, hup, hrest seg mem_cons_self⟩

theorem resolve_plain {v : Vfs} {cwd arg vpath : Text} (h : v.resolve cwd arg = some vpath) :
    ∃ segs, (∀ s ∈ segs, Plain s) ∧ vpath = vpathOf segs := by
  obtain ⟨segs, hsegs, rfl⟩ := Option.map_eq_some_iff.1 h
  refine ⟨segs, resolveSegs_plain _ [] (fun s hs => ?_) (fun s hs => (by cases hs)) hsegs, rfl⟩
  rcases mem_append.1 hs with hs | hs <;> exact notMem_of_mem_splitOn hs

theorem intercalate_slash : ∀ segs : List Text, segs ≠ [] → '/' :: ['/'].intercalate segs = segs.flatMap ('/' :: ·)
  | [], h => absurd rfl h
  | [seg], _ => by simp [List.intercalate]
  | seg :: seg' :: segs, _ => by
    have ih := intercalate_slash (seg' :: segs) (cons_ne_nil _ _)
    rw [flatMap_cons, ← ih]
    simp [List.intercalate, List.intersperse]

variable {segs : List Text}

theorem vpathOf_of_ne_nil (h : segs ≠ []) : vpathOf segs = segs.flatMap ('/' :: ·) := by
  rw [vpathOf, if_neg h, intercalate_slash segs h]

theorem vpathOf_eq_root (hplain : ∀ s ∈ segs, Plain s) : vpathOf segs = ['/'] ↔ segs = [] := by
  constructor
  · intro h
    by_contra hne
    obtain ⟨seg, segs, rfl⟩ := exists_cons_of_ne_nil hne
    rw [vpathOf_of_ne_nil hne, flatMap_cons, cons_append, List.cons.injEq] at h
    exact (hplain seg mem_cons_self).ne_nil (append_eq_nil_iff.1 h.2).1
  · rintro rfl
    rfl

theorem toReal_vpathOf {v : Vfs} (hdev : v.allowDevicePaths = false)
    (hplain : ∀ s ∈ segs, Plain s) : v.toReal (vpathOf segs) = under v.root segs := by
  have hreal : v.toReal (vpathOf segs) = if vpathOf segs = ['/'] then v.root else v.root ++ vpathOf segs := by
    simp only [Vfs.toReal, hdev, Bool.false_and, Bool.false_eq_true, if_false]
    split <;> rfl
  rw [hreal]
  by_cases hnil : segs = []
  · rw [if_pos ((vpathOf_eq_root hplain).2 hnil), hnil]
    simp [under]
  · rw [if_neg (fun h => hnil ((vpathOf_eq_root hplain).1 h)), vpathOf_of_ne_nil hnil]
    rfl

theorem rsplitOnce_last {last : Text} (hlast : c ∉ last) : ∀ pre : Text,
    rsplitOnce c (pre ++ c :: last) = some (pre, last)
  | [] => by
    have hnone : ∀ s : Text, c ∉ s → rsplitOnce c s = none := fun s => by
      induction s with
      | nil => exact fun _ => rfl
      | cons x s ih =>
        intro hs
        rw [mem_cons, not_or] at hs
        rw [rsplitOnce, ih hs.2]
        exact if_neg (Ne.symm hs.1)
    rw [nil_append, rsplitOnce, hnone last hlast]
    exact if_pos rfl
  | x :: pre => by rw [cons_append, rsplitOnce, rsplitOnce_last hlast pre]

theorem splitParent_vpathOf {last : Text} (hlast : Plain last) :
    splitParent (vpathOf (segs ++ [last])) = (vpathOf segs, last) := by
  have hsplit : rsplitOnce '/' (vpathOf (segs ++ [last])) = some (segs.flatMap ('/' :: ·), last) := by
    rw [vpathOf_of_ne_nil (by simp), flatMap_append, flatMap_singleton, rsplitOnce_last hlast.no_slash]
  unfold splitParent
  rw [hsplit]
  cases segs with
  | nil => rfl
  | cons seg segs => rw [vpathOf_of_ne_nil (cons_ne_nil seg segs), flatMap_cons, cons_append]

theorem splitParent_plain (hplain : ∀ s ∈ segs, Plain s) :
    ∃ segs', (∀ s ∈ segs', Plain s) ∧ (splitParent (vpathOf segs)).1 = vpathOf segs' := by
  rcases eq_nil_or_concat segs with rfl | ⟨segs, last, rfl⟩
  · exact ⟨[], fun s hs => (by cases hs), rfl⟩
  · rw [concat_eq_append] at hplain ⊢
    refine ⟨segs, fun s hs => hplain s (mem_append_left _ hs), ?_⟩
    rw [splitParent_vpathOf (hplain last (by simp))]

theorem not_jailed (root rest : Text) (hc : c ≠ '/') : ¬ Jailed root (root ++ c :: rest) := by
  rintro ⟨segs, -, h⟩
  have htail := append_cancel_left h
  cases segs with
  | nil => cases htail
  | cons seg segs =>
    rw [flatMap_cons, cons_append, List.cons.injEq] at htail
    exact hc htail.1

example : (Vfs.new "ux0:/".toList false).resolve "/data".toList "../app/./x".toList = some "/app/x".toList := by decide
example : (Vfs.new "ux0:".toList false).resolve "/data".toList "../../etc".toList = none := by decide

end TailscaleVita.Ftp
