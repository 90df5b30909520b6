import TailscaleVita.FtpJail
/-!
# FtpPaths — how client paths compose (`ts-ftp/src/vfs.rs`)

`resolve` keeps a stack of segments: `..` takes one off, and taking one off an empty stack is an escape. So a path is
refused exactly when, somewhere along its segments, there were more ways up than down; and a path that is resolved in
two parts, or over again, is resolved as it would be at once.
-/
namespace TailscaleVita.Ftp

open List

def segments (cwd arg : Text) : List Text :=
  (if arg.head? = some '/' then ['/'] else cwd).splitOn '/' ++ arg.splitOn '/'

def isOrdinary (seg : Text) : Bool := decide (seg ≠ [] ∧ seg ≠ ".".toList ∧ seg ≠ "..".toList)

def isUp (seg : Text) : Bool := decide (seg = "..".toList)

def Escapes (segs : List Text) : Prop := ∃ pre, pre <+: segs ∧ pre.countP isOrdinary < pre.countP isUp

theorem resolve_eq (v : Vfs) (cwd arg : Text) :
    v.resolve cwd arg = (resolveSegs [] (segments cwd arg)).map vpathOf := rfl

variable {seg : Text}

theorem isUp_of_isOrdinary (h : isOrdinary seg = true) : isUp seg = false :=
  decide_eq_false (of_decide_eq_true h).2.2

theorem isOrdinary_of_plain (h : Plain seg) : isOrdinary seg = true :=
  decide_eq_true ⟨h.ne_nil, h.ne_dot, h.ne_dotDot⟩

theorem resolveSegs_down (h : isOrdinary seg = true) (stack rest : List Text) :
    resolveSegs stack (seg :: rest) = resolveSegs (stack ++ [seg]) rest := by
  obtain ⟨hnil, hdot, hup⟩ := of_decide_eq_true h
  rw [resolveSegs.eq_def]
  simp only
  rw [if_neg (not_or.2 ⟨hnil, hdot⟩), if_neg hup]

theorem resolveSegs_up (h : isUp seg = true) (stack rest : List Text) :
    resolveSegs stack (seg :: rest) = if stack = [] then none else resolveSegs stack.dropLast rest := by
  have hup : seg = "..".toList := of_decide_eq_true h
  rw [resolveSegs.eq_def]
  simp only
  rw [if_neg (by rw [hup]; decide), if_pos hup]
  cases stack <;> rfl

theorem resolveSegs_skip (ho : isOrdinary seg = false) (hu : isUp seg = false) (stack rest : List Text) :
    resolveSegs stack (seg :: rest) = resolveSegs stack rest := by
  have hskip : seg = [] ∨ seg = ".".toList := by
    by_contra hno
    rw [not_or] at hno
    exact of_decide_eq_false ho ⟨hno.1, hno.2, of_decide_eq_false hu⟩
  rw [resolveSegs.eq_def]
  exact if_pos hskip

theorem resolveSegs_append : ∀ (xs stack ys : List Text),
    resolveSegs stack (xs ++ ys) = (resolveSegs stack xs).bind (resolveSegs · ys)
  | [], _, _ => rfl
  | seg :: xs, stack, ys => by
    rw [cons_append]
    by_cases ho : isOrdinary seg = true
    · rw [resolveSegs_down ho, resolveSegs_down ho, resolveSegs_append xs]
    rw [Bool.not_eq_true] at ho
    by_cases hu : isUp seg = true
    · rw [resolveSegs_up hu, resolveSegs_up hu, resolveSegs_append xs]
      split <;> rfl
    rw [Bool.not_eq_true] at hu
    rw [resolveSegs_skip ho hu, resolveSegs_skip ho hu, resolveSegs_append xs]

theorem resolveSegs_plain_append : ∀ (segs stack : List Text), (∀ s ∈ segs, Plain s) →
    resolveSegs stack segs = some (stack ++ segs)
  | [], stack, _ => by rw [resolveSegs, append_nil]
  | seg :: segs, stack, h => by
    rw [resolveSegs_down (isOrdinary_of_plain (h seg mem_cons_self)),
      resolveSegs_plain_append segs _ (fun s hs => h s (mem_cons_of_mem seg hs)), append_assoc]
    rfl

theorem exists_prefix_cons {α : Type} {x : α} {xs : List α} {p : List α → Prop} :
    (∃ pre, pre <+: x :: xs ∧ p pre) ↔ p [] ∨ ∃ pre, pre <+: xs ∧ p (x :: pre) := by
  constructor
  · rintro ⟨pre, hpre, hp⟩
    match pre, hpre with
    | [], _ => exact .inl hp
    | y :: pre, hpre =>
      obtain ⟨rfl, htail⟩ := cons_prefix_cons.1 hpre
      exact .inr ⟨pre, htail, hp⟩
  · rintro (hp | ⟨pre, hpre, hp⟩)
    · exact ⟨[], nil_prefix, hp⟩
    · exact ⟨x :: pre, cons_prefix_cons.2 ⟨rfl, hpre⟩, hp⟩

theorem resolveSegs_eq_none : ∀ (rest stack : List Text), resolveSegs stack rest = none ↔
    ∃ pre, pre <+: rest ∧ stack.length + pre.countP isOrdinary < pre.countP isUp
  | [], stack => by
    rw [resolveSegs]
    simp [prefix_nil]
  | seg :: rest, stack => by
    rw [exists_prefix_cons]
    simp only [countP_nil, countP_cons, Nat.not_lt_zero, false_or]
    by_cases ho : isOrdinary seg = true
    · have hu := isUp_of_isOrdinary ho
      rw [resolveSegs_down ho, resolveSegs_eq_none rest, length_append, length_singleton]
      simp only [ho, hu, Bool.false_eq_true, if_false, if_true, Nat.add_zero]
      refine exists_congr (fun pre => and_congr_right (fun _ => ?_))
      omega
    rw [Bool.not_eq_true] at ho
    by_cases hu : isUp seg = true
    · rw [resolveSegs_up hu]
      simp only [ho, hu, Bool.false_eq_true, if_false, if_true, Nat.add_zero]
      split
      next hnil =>
        -- the first way up is already one too many
        simp only [true_iff]
        exact ⟨[], nil_prefix, by rw [hnil]; decide⟩
      next hne =>
        have hpos := length_pos_iff.2 hne
        rw [resolveSegs_eq_none rest, length_dropLast]
        refine exists_congr (fun pre => and_congr_right (fun _ => ?_))
        omega
    rw [Bool.not_eq_true] at hu
    rw [resolveSegs_skip ho hu, resolveSegs_eq_none rest]
    simp [ho, hu]

theorem splitOn_append_slash (a b : Text) : (a ++ '/' :: b).splitOn '/' = a.splitOn '/' ++ b.splitOn '/' :=
  splitOnP_append_cons a b (beq_self_eq_true '/')

theorem resolveSegs_vpathOf {segs : List Text} (h : ∀ s ∈ segs, Plain s) (stack : List Text) :
    resolveSegs stack ((vpathOf segs).splitOn '/') = some (stack ++ segs) := by
  have hskip : ∀ rest : List Text, resolveSegs stack ([] :: rest) = resolveSegs stack rest :=
    resolveSegs_skip (by decide) (by decide) stack
  by_cases hnil : segs = []
  · subst hnil
    rw [append_nil]
    show resolveSegs stack [[], []] = some stack
    rw [hskip, hskip, resolveSegs]
  · have hsplit : (vpathOf segs).splitOn '/' = [] :: segs := by
      rw [vpathOf, if_neg hnil]
      refine (splitOn_append_slash [] (['/'].intercalate segs)).trans ?_
      exact congrArg ([] :: ·) (splitOn_intercalate '/' (fun s hs => (h s hs).no_slash) hnil)
    rw [hsplit, hskip, resolveSegs_plain_append segs stack h]

theorem head?_vpathOf (segs : List Text) : (vpathOf segs).head? = some '/' := by
  unfold vpathOf
  split <;> rfl

theorem resolve_resolved (v : Vfs) (cwd : Text) {d : Text} (h : Resolved d) : v.resolve cwd d = some d := by
  obtain ⟨segs, hplain, rfl⟩ := h
  have hroot : resolveSegs [] (['/'].splitOn '/') = some [] := rfl
  rw [resolve_eq, segments, if_pos (head?_vpathOf segs), resolveSegs_append, hroot]
  show (resolveSegs [] _).map vpathOf = _
  rw [resolveSegs_vpathOf hplain]
  rfl

theorem segments_append {cwd a : Text} (ha : a ≠ []) (b : Text) :
    segments cwd (a ++ '/' :: b) = segments cwd a ++ b.splitOn '/' := by
  unfold segments
  rw [head?_append_of_ne_nil a ha, splitOn_append_slash, append_assoc]

theorem resolve_append (v : Vfs) {cwd a d b : Text} (ha : a ≠ []) (hb : b.head? ≠ some '/')
    (h : v.resolve cwd a = some d) : v.resolve d b = v.resolve cwd (a ++ '/' :: b) := by
  obtain ⟨segs, hsegs, rfl⟩ := Option.map_eq_some_iff.1 ((resolve_eq v cwd a).symm.trans h)
  -- the segments that the stack held are those of the path
  have hsame : resolveSegs [] ((vpathOf segs).splitOn '/') = some segs := by
    have hstack := resolveSegs_plain _ [] (fun s hs => ?_) (fun s hs => (by cases hs)) hsegs
    · rw [resolveSegs_vpathOf hstack, nil_append]
    · rcases mem_append.1 hs with hs | hs <;> exact notMem_of_mem_splitOn hs
  rw [resolve_eq, resolve_eq, segments_append ha, resolveSegs_append, hsegs]
  unfold segments
  rw [if_neg hb, resolveSegs_append, hsame]

/-- **The algebra of virtual paths**, from any directory. What is resolved is the root or a path of plain segments; it
is resolved to itself; a relative path from there is the same path behind the first one; and a path is refused exactly
when it escapes. -/
theorem virtual_path_algebra (v : Vfs) (cwd a b : Text) :
    (∀ d, v.resolve cwd a = some d → Resolved d ∧ (∀ cwd', v.resolve cwd' d = some d) ∧
      (a ≠ [] → b.head? ≠ some '/' → v.resolve d b = v.resolve cwd (a ++ '/' :: b))) ∧
    (v.resolve cwd a = none ↔ Escapes (segments cwd a)) := by
  constructor
  · intro d h
    exact ⟨resolve_plain h, fun cwd' => resolve_resolved v cwd' (resolve_plain h),
      fun ha hb => resolve_append v ha hb h⟩
  · rw [resolve_eq, Option.map_eq_none_iff, resolveSegs_eq_none]
    simp only [length_nil, Nat.zero_add]
    rfl

end TailscaleVita.Ftp
