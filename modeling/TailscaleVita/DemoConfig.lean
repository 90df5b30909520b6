import Mathlib.Algebra.Order.BigOperators.Group.List
import Mathlib.Algebra.Order.Ring.Nat
import TailscaleVita.Sections
import TailscaleVita.StdText
/-!
# DemoConfig — the line editor of `config.toml` (`tailscale-vita-demo/src/ui/config_edit.rs`)

The file is edited as lines under `[section]` headers: a setter is `Sections.put` on the lines, a reader is
`Sections.find`. What the setters write ends every line in `\n`, so a carriage return at the end of a line they keep is
read as part of the line's end from then on.
-/
namespace TailscaleVita.Demo

open List

/-! ## Lines -/

def trimStart (s : Text) : Text := s.dropWhile isWhitespace

def sectionName (line : Text) : Option Text :=
  match trimStart line with
  | '[' :: inner => (splitOnce ']' inner).map (fun p => trim p.1)
  | _ => none

def lineKey (line : Text) : Option Text := (splitOnce '=' line).map (fun p => trim p.1)

def indentOf (line : Text) : Text := line.takeWhile isWhitespace

def boolText : Bool → Text
  | true => "true".toList
  | false => "false".toList

def currentBool (line : Text) : Bool :=
  match splitOnce '=' line with
  | some (_, rhs) => (boolText true).isPrefixOf (trim rhs)
  | none => false

def parseBasicString (rhs : Text) : Option Text :=
  match trim rhs with
  | '"' :: body => (splitOnce '"' body).map Prod.fst
  | _ => none

def equalsText : Text := " = ".toList

def pushBool (key : Text) (value : Bool) (indent : Text) : Text :=
  indent ++ (key ++ (equalsText ++ (boolText value ++ ['\n'])))

def pushStrKv (key value indent : Text) : Text :=
  indent ++ (key ++ (equalsText ++ ('"' :: (value ++ ['"'] ++ ['\n']))))

/-! ## The scanners -/

section

variable (sect key : Text)

def readLoop {β : Type} (value : Text → Option β) : (inSection : Bool) → List Text → Option β
  | _, [] => none
  | inSection, line :: rest =>
    match sectionName line with
    | some name => readLoop value (decide (name = sect)) rest
    | none => if inSection = true ∧ lineKey line = some key then value line else readLoop value inSection rest

def setLoop (push : Text → Text) : (inSection sawSection wrote : Bool) → List Text → Text
  | inSection, sawSection, wrote, [] =>
    if inSection && !wrote then push []
    else if !sawSection then '\n' :: '[' :: (sect ++ (']' :: '\n' :: push []))
    else []
  | inSection, sawSection, wrote, line :: rest =>
    match sectionName line with
    | some name =>
      (if inSection && !wrote then push [] else []) ++ (line ++ ('\n' ::
        setLoop push (decide (name = sect)) (sawSection || decide (name = sect)) (wrote || inSection) rest))
    | none =>
      if (inSection && !wrote) = true ∧ lineKey line = some key then
        push (indentOf line) ++ setLoop push inSection sawSection true rest
      else line ++ ('\n' :: setLoop push inSection sawSection wrote rest)

def toggleLoop : (inSection : Bool) → (newValue : Option Bool) → List Text → Text × Option Bool
  | _, newValue, [] => ([], newValue)
  | inSection, newValue, line :: rest =>
    match sectionName line with
    | some name =>
      let r := toggleLoop (decide (name = sect)) newValue rest
      (line ++ ('\n' :: r.1), r.2)
    | none =>
      if (inSection && newValue.isNone) = true ∧ lineKey line = some key then
        let next := !currentBool line
        let r := toggleLoop inSection (some next) rest
        (pushBool key next (indentOf line) ++ r.1, r.2)
      else
        let r := toggleLoop inSection newValue rest
        (line ++ ('\n' :: r.1), r.2)

end

def toggleBool (text sect key : Text) : Option (Text × Bool) :=
  let r := toggleLoop sect key false none (lines text)
  r.2.map (fun v => (r.1, v))

def setBool (text sect key : Text) (value : Bool) : Text × Bool :=
  (setLoop sect key (pushBool key value) false false false (lines text), value)

def setStr (text sect key value : Text) : Text :=
  setLoop sect key (pushStrKv key value) false false false (lines text)

def readBool (text sect key : Text) : Option Bool :=
  readLoop sect key (fun line => some (currentBool line)) false (lines text)

def readStr (text sect key : Text) : Option Text :=
  readLoop sect key (fun line => (splitOnce '=' line).bind (fun p => parseBasicString p.2)) false (lines text)

/-! ## The scanners as look-ups and replacements -/

def shape : Sections Text Text Text := ⟨sectionName, lineKey⟩

theorem header_shape (line : Text) : shape.header line = sectionName line := rfl

theorem key_shape (line : Text) : shape.key line = lineKey line := rfl

theorem readLoop_eq {β : Type} (sect key : Text) (value : Text → Option β) : ∀ (ls : List Text) (inSection : Bool),
    readLoop sect key value inSection ls = (shape.find sect key inSection ls).bind value
  | [], _ => rfl
  | line :: rest, inSection => by
    rw [readLoop, Sections.find, header_shape, key_shape]
    cases sectionName line with
    | some name => exact readLoop_eq sect key value rest _
    | none =>
      simp only
      split
      · rfl
      · exact readLoop_eq sect key value rest inSection

def entryLine (key tail indent : Text) : Text := indent ++ (key ++ (equalsText ++ tail))

def newLine (key tail : Text) (old : Option Text) : Text := entryLine key tail ((old.map indentOf).getD [])

def header (sect : Text) : Text := '[' :: (sect ++ [']'])

def whole (sect key tail : Text) : List Text := [[], header sect, newLine key tail none]

def putLines (sect key tail : Text) (ls : List Text) : List Text :=
  shape.put sect key (newLine key tail) (whole sect key tail) false false ls

section

variable {sect key tail : Text} {push : Text → Text}

theorem setLoop_wrote : ∀ (ls : List Text) (inSection : Bool), setLoop sect key push inSection true true ls = unlines ls
  | [], _ => by simp [setLoop, unlines]
  | line :: rest, inSection => by
    rw [setLoop, unlines_cons]
    cases sectionName line with
    | some name | none => simp [setLoop_wrote rest]

theorem setLoop_eq (hpush : ∀ indent, push indent = entryLine key tail indent ++ ['\n']) :
    ∀ (ls : List Text) (inSection sawSection : Bool), (inSection = true → sawSection = true) →
      setLoop sect key push inSection sawSection false ls =
        unlines (shape.put sect key (newLine key tail) (whole sect key tail) inSection sawSection ls)
  | [], true, _, _ => by simp [setLoop, Sections.put, unlines, hpush, newLine]
  | [], false, true, _ => rfl
  | [], false, false, _ => by
    simp [setLoop, Sections.put, whole, header, unlines, hpush, newLine]
  | line :: rest, inSection, sawSection, hsaw => by
    rw [setLoop, Sections.put, header_shape, key_shape]
    cases sectionName line with
    | some name =>
      cases inSection with
      | true =>
        -- the line goes in before the next header
        simp only [hsaw rfl, Bool.not_false, Bool.and_self, if_true, Bool.true_or, Bool.or_true]
        rw [setLoop_wrote, unlines_cons, unlines_cons, hpush, append_assoc]
        rfl
      | false =>
        simp only [Bool.false_and, Bool.false_eq_true, if_false, nil_append, Bool.or_false]
        rw [unlines_cons, setLoop_eq hpush rest]
        intro hname
        rw [hname, Bool.or_true]
    | none =>
      simp only [Bool.not_false, Bool.and_true]
      split
      next hkey =>
        obtain ⟨rfl, -⟩ := hkey
        rw [hsaw rfl, setLoop_wrote, unlines_cons, hpush, append_assoc]
        rfl
      · rw [unlines_cons, setLoop_eq hpush rest inSection sawSection hsaw]

end

def strTail (value : Text) : Text := '"' :: (value ++ ['"'])

theorem setBool_eq (text sect key : Text) (value : Bool) :
    setBool text sect key value = (unlines (putLines sect key (boolText value) (lines text)), value) := by
  have hpush : ∀ indent, pushBool key value indent = entryLine key (boolText value) indent ++ ['\n'] := by
    simp [pushBool, entryLine]
  unfold setBool putLines
  rw [setLoop_eq hpush _ _ _ Bool.noConfusion]

theorem setStr_eq (text sect key value : Text) :
    setStr text sect key value = unlines (putLines sect key (strTail value) (lines text)) := by
  have hpush : ∀ indent, pushStrKv key value indent = entryLine key (strTail value) indent ++ ['\n'] := by
    simp [pushStrKv, entryLine, strTail]
  unfold setStr putLines
  rw [setLoop_eq hpush _ _ _ Bool.noConfusion]

/-! ## Carriage returns -/

variable (l : Text)

theorem stripCr_cases : stripCr l = l ∨ l = stripCr l ++ ['\r'] := by
  unfold stripCr
  split
  next h =>
    refine .inr ?_
    obtain ⟨front, rfl⟩ := getLast?_eq_some_iff.1 h
    rw [dropLast_concat]
  · exact .inl rfl

variable {l} in
theorem stripCr_of_append {β : Type} {f : Text → β} (h : ∀ l, f (l ++ ['\r']) = f l) : f (stripCr l) = f l := by
  obtain hl | hl := stripCr_cases l
  · rw [hl]
  · conv_rhs => rw [hl, h]

theorem lineKey_append_cr : lineKey (l ++ ['\r']) = lineKey l := by
  unfold lineKey
  rw [splitOnce_append (by decide), Option.map_map]
  rfl

theorem trimStart_append_cr :
    (trimStart l = [] ∧ trimStart (l ++ ['\r']) = []) ∨ trimStart (l ++ ['\r']) = trimStart l ++ ['\r'] := by
  unfold trimStart
  rw [dropWhile_append]
  split
  next hempty => exact .inl ⟨isEmpty_iff.1 hempty, rfl⟩
  · exact .inr rfl

theorem sectionName_append_cr : sectionName (l ++ ['\r']) = sectionName l := by
  unfold sectionName
  obtain ⟨h, h'⟩ | h := trimStart_append_cr l
  · rw [h, h']
  · rw [h]
    cases trimStart l with
    | nil => rfl
    | cons c inner =>
      by_cases hc : c = '['
      · subst hc
        show (splitOnce ']' (inner ++ ['\r'])).map _ = (splitOnce ']' inner).map _
        rw [splitOnce_append (by decide), Option.map_map]
        rfl
      · simp [hc]

theorem invisible_stripCr : Sections.Invisible shape stripCr := fun _ =>
  ⟨stripCr_of_append sectionName_append_cr, stripCr_of_append lineKey_append_cr⟩

theorem currentBool_stripCr : currentBool (stripCr l) = currentBool l := by
  refine stripCr_of_append fun l => ?_
  unfold currentBool
  rw [splitOnce_append (by decide)]
  cases splitOnce '=' l with
  | none => rfl
  | some p =>
    show (boolText true).isPrefixOf (trim (p.2 ++ ['\r'])) = _
    rw [trim_append_space p.2 (by decide)]

theorem parse_stripCr : ((splitOnce '=' (stripCr l)).bind fun p => parseBasicString p.2) =
    (splitOnce '=' l).bind fun p => parseBasicString p.2 := by
  refine stripCr_of_append (f := fun l => (splitOnce '=' l).bind fun p => parseBasicString p.2) fun l => ?_
  rw [splitOnce_append (by decide)]
  cases splitOnce '=' l with
  | none => rfl
  | some p =>
    show parseBasicString (p.2 ++ ['\r']) = parseBasicString p.2
    unfold parseBasicString
    rw [trim_append_space p.2 (by decide)]

def crs (l : Text) : Nat := (l.reverse.takeWhile (· = '\r')).length

theorem crs_eq_zero_iff : crs l = 0 ↔ l.getLast? ≠ some '\r' := by
  unfold crs
  rw [getLast?_eq_head?_reverse]
  cases l.reverse with
  | nil => simp
  | cons c rest => by_cases h : c = '\r' <;> simp [h]

theorem stripCr_eq_self_iff : stripCr l = l ↔ l.getLast? ≠ some '\r' := by
  refine ⟨fun h hcr => ?_, fun h => if_neg h⟩
  obtain ⟨front, rfl⟩ := getLast?_eq_some_iff.1 hcr
  rw [stripCr, if_pos hcr, dropLast_concat] at h
  simpa using congrArg List.length h

theorem crs_stripCr : crs (stripCr l) = crs l - 1 := by
  obtain h | h := stripCr_cases l
  · rw [h, (crs_eq_zero_iff l).2 ((stripCr_eq_self_iff l).1 h)]
  · have hlen : crs l = crs (stripCr l) + 1 := by
      conv_lhs => rw [h]
      unfold crs
      rw [reverse_append]
      rfl
    rw [hlen, Nat.add_sub_cancel]

/-! ## Entries -/

/-- A name: trimmed, not empty, and free of what the scanners look for. -/
structure Word (w : Text) : Prop where
  trimmed : trim w = w
  ne_nil : w ≠ []
  plain : ∀ c ∈ w, c ≠ '[' ∧ c ≠ ']' ∧ c ≠ '=' ∧ c ≠ '#' ∧ c ≠ '\n'

structure Closed (tail : Text) : Prop where
  one : '\n' ∉ tail
  ends : ∃ front c, tail = front ++ [c] ∧ c ≠ '\r'

theorem closed_boolText (b : Bool) : Closed (boolText b) := by
  cases b with
  | true => exact ⟨by decide, "tru".toList, 'e', rfl, by decide⟩
  | false => exact ⟨by decide, "fals".toList, 'e', rfl, by decide⟩

theorem closed_strTail {value : Text} (h : '\n' ∉ value) : Closed (strTail value) := by
  refine ⟨?_, '"' :: value, '"', rfl, by decide⟩
  unfold strTail
  simp [h]

section

variable {sect key tail : Text}

theorem Word.head (hk : Word key) : ∃ c rest, key = c :: rest ∧ isWhitespace c = false ∧ c ≠ '[' := by
  obtain ⟨c, rest, rfl⟩ := exists_cons_of_ne_nil hk.ne_nil
  exact ⟨c, rest, rfl, (tight_of_trim hk.trimmed).1 c rfl, (hk.plain c mem_cons_self).1⟩

def Blank (indent : Text) : Prop := ∀ c ∈ indent, isWhitespace c = true

theorem blank_indentOf (line : Text) : Blank (indentOf line) := all_eq_true.1 all_takeWhile

theorem blank_indent (old : Option Text) : Blank ((old.map indentOf).getD []) := by
  cases old with
  | none => exact fun c hc => by cases hc
  | some line => exact blank_indentOf line

variable {indent : Text}

theorem sectionName_entryLine (hk : Word key) (hi : Blank indent) : sectionName (entryLine key tail indent) = none := by
  obtain ⟨c, rest, rfl, hc, hbracket⟩ := hk.head
  have hstart : trimStart (entryLine (c :: rest) tail indent) = c :: (rest ++ (equalsText ++ tail)) := by
    unfold trimStart entryLine
    rw [dropWhile_append_of_pos hi, cons_append, dropWhile_cons_of_neg (by rw [hc]; decide)]
  unfold sectionName
  rw [hstart]
  simp [hbracket]

theorem splitOnce_entryLine (hk : Word key) (hi : Blank indent) :
    splitOnce '=' (entryLine key tail indent) = some (indent ++ (key ++ [' ']), ' ' :: tail) := by
  have hfree : '=' ∉ indent ++ (key ++ [' ']) := by
    intro hm
    rcases mem_append.1 hm with hm | hm
    · exact absurd (hi _ hm) (by decide)
    · rcases mem_append.1 hm with hm | hm
      · exact (hk.plain _ hm).2.2.1 rfl
      · exact absurd (mem_singleton.1 hm) (by decide)
  have hline : entryLine key tail indent = (indent ++ (key ++ [' '])) ++ '=' :: ' ' :: tail := by
    simp [entryLine, equalsText]
  rw [hline, splitOnce_append_cons _ hfree]

theorem lineKey_entryLine (hk : Word key) (hi : Blank indent) : lineKey (entryLine key tail indent) = some key := by
  unfold lineKey
  rw [splitOnce_entryLine hk hi]
  exact congrArg some (trim_around (tight_of_trim hk.trimmed) hk.ne_nil hi
    (fun c hc => by rw [mem_singleton.1 hc]; decide))

theorem indentOf_entryLine (hk : Word key) (hi : Blank indent) : indentOf (entryLine key tail indent) = indent := by
  obtain ⟨c, rest, rfl, hc, -⟩ := hk.head
  unfold indentOf entryLine
  rw [takeWhile_append_of_pos hi, cons_append, takeWhile_cons_of_neg (by rw [hc]; decide), append_nil]

theorem sectionName_header (hs : Word sect) : sectionName (header sect) = some sect := by
  have hfree : ']' ∉ sect := fun hm => (hs.plain _ hm).2.1 rfl
  show (splitOnce ']' (sect ++ ']' :: [])).map (fun p => trim p.1) = some sect
  rw [splitOnce_append_cons [] hfree]
  exact congrArg some hs.trimmed

theorem puts_newLine (tail : Text) (hs : Word sect) (hk : Word key) :
    Sections.Puts shape sect key (newLine key tail) (whole sect key tail) where
  plain old := sectionName_entryLine hk (blank_indent old)
  keyed old := lineKey_entryLine hk (blank_indent old)
  whole_eq := ⟨[], header sect, rfl, rfl, rfl, sectionName_header hs⟩

theorem newLine_newLine (hk : Word key) (tail' : Text) (old : Option Text) :
    newLine key tail' (some (newLine key tail old)) = newLine key tail' old := by
  have hindent : indentOf (newLine key tail old) = (old.map indentOf).getD [] :=
    indentOf_entryLine hk (blank_indent old)
  show entryLine key tail' (indentOf (newLine key tail old)) = _
  rw [hindent]
  rfl

theorem getLast?_newLine (ht : Closed tail) (old : Option Text) : (newLine key tail old).getLast? ≠ some '\r' := by
  obtain ⟨front, c, rfl, hc⟩ := ht.ends
  have hline : newLine key (front ++ [c]) old =
      (((old.map indentOf).getD []) ++ (key ++ (equalsText ++ front))) ++ [c] := by
    simp [newLine, entryLine]
  rw [hline, getLast?_concat]
  exact fun he => hc (Option.some.inj he)

theorem getLast?_whole (ht : Closed tail) : ∀ l ∈ whole sect key tail, l.getLast? ≠ some '\r' := by
  intro l hl
  rcases mem_cons.1 hl with rfl | hl
  · exact fun he => by cases he
  · rcases mem_cons.1 hl with rfl | hl
    · have hlast : (header sect).getLast? = some ']' := by
        unfold header
        rw [← cons_append, getLast?_concat]
      rw [hlast]
      decide
    · rw [mem_singleton.1 hl]
      exact getLast?_newLine ht none

/-! ## What a setter writes -/

def keptLines (sect key : Text) (ls : List Text) : List Text := shape.others sect key false ls

theorem placed (tail : Text) (ls : List Text) : Sections.Placed (newLine key tail) (whole sect key tail) ls
    (keptLines sect key ls) (putLines sect key tail ls) := Sections.placed ls false false

theorem newline_not_mem_entryLine (hk : Word key) (ht : Closed tail) (hi : '\n' ∉ indent) :
    '\n' ∉ entryLine key tail indent := by
  intro hm
  simp only [entryLine, mem_append] at hm
  rcases hm with hm | hm | hm | hm
  · exact hi hm
  · exact (hk.plain _ hm).2.2.2.2 rfl
  · exact absurd hm (by decide)
  · exact ht.one hm

theorem newline_not_mem_putLines (hs : Word sect) (hk : Word key) (ht : Closed tail) {ls : List Text}
    (hls : ∀ l ∈ ls, '\n' ∉ l) : ∀ l ∈ putLines sect key tail ls, '\n' ∉ l := by
  have hadded : '\n' ∉ newLine key tail none := newline_not_mem_entryLine hk ht not_mem_nil
  intro l hl
  obtain hl | ⟨old, rfl, hold⟩ | hl := (placed tail ls).mem hl
  · exact hls l ((placed tail ls).subset hl)
  · cases old with
    | none => exact hadded
    | some line =>
      exact newline_not_mem_entryLine hk ht
        (fun hm => hls line (hold line rfl) ((List.takeWhile_prefix isWhitespace).subset hm))
  · rcases mem_cons.1 hl with rfl | hl
    · exact not_mem_nil
    · rcases mem_cons.1 hl with rfl | hl
      · intro hm
        simp only [header, mem_cons, mem_append, not_mem_nil, or_false] at hm
        rcases hm with hm | hm | hm
        · exact absurd hm (by decide)
        · exact (hs.plain _ hm).2.2.2.2 rfl
        · exact absurd hm (by decide)
      · rwa [mem_singleton.1 hl]

theorem lines_putLines (hs : Word sect) (hk : Word key) (ht : Closed tail) (t : Text) :
    lines (unlines (putLines sect key tail (lines t))) = (putLines sect key tail (lines t)).map stripCr :=
  lines_unlines (newline_not_mem_putLines hs hk ht (newline_not_mem_lines t))

variable {β : Type}

variable {value : Text → Option β}

theorem readLoop_putLines (hs : Word sect) (hk : Word key) (ht : Closed tail) (t : Text)
    (hvalue : ∀ l, value (stripCr l) = value l) (sect' key' : Text) :
    readLoop sect' key' value false (lines (unlines (putLines sect key tail (lines t)))) =
      (shape.find sect' key' false (putLines sect key tail (lines t))).bind value := by
  rw [lines_putLines hs hk ht, readLoop_eq, Sections.find_map invisible_stripCr]
  cases shape.find sect' key' false (putLines sect key tail (lines t)) with
  | none => rfl
  | some l => exact hvalue l

theorem readLoop_putLines_same (hs : Word sect) (hk : Word key) (ht : Closed tail) (t : Text)
    (hvalue : ∀ l, value (stripCr l) = value l) {v : Option β} (hv : ∀ old, value (newLine key tail old) = v) :
    readLoop sect key value false (lines (unlines (putLines sect key tail (lines t)))) = v := by
  rw [readLoop_putLines hs hk ht t hvalue]
  obtain ⟨old, hfound⟩ := Sections.find_put (puts_newLine tail hs hk) (lines t) false false (fun _ => rfl)
  unfold putLines
  rw [hfound]
  exact hv old

theorem readLoop_putLines_other (hs : Word sect) (hk : Word key) (ht : Closed tail) (t : Text)
    (hvalue : ∀ l, value (stripCr l) = value l) {sect' key' : Text} (hne : (sect', key') ≠ (sect, key)) :
    readLoop sect' key' value false (lines (unlines (putLines sect key tail (lines t)))) =
      readLoop sect' key' value false (lines t) := by
  have hother : sect' = sect → key' ≠ key := fun hsect hkey => hne (by rw [hsect, hkey])
  rw [readLoop_putLines hs hk ht t hvalue, readLoop_eq]
  unfold putLines
  rw [Sections.find_put_other (puts_newLine _ hs hk) hother (lines t) false false false Bool.noConfusion]

/-! ## Carriage returns at the end of kept lines -/

def NoCr (sect key : Text) (ls : List Text) : Prop := ∀ l ∈ keptLines sect key ls, l.getLast? ≠ some '\r'

theorem noCr_iff_putLines (ht : Closed tail) (ls : List Text) :
    NoCr sect key ls ↔ ∀ l ∈ putLines sect key tail ls, l.getLast? ≠ some '\r' := by
  constructor
  · intro h l hl
    obtain hl | ⟨old, rfl, -⟩ | hl := (placed tail ls).mem hl
    · exact h l hl
    · exact getLast?_newLine ht old
    · exact getLast?_whole ht l hl
  · exact fun h l hl => h l ((placed tail ls).sublist.subset hl)

theorem map_stripCr_eq_self_iff (ls : List Text) : ls.map stripCr = ls ↔ ∀ l ∈ ls, l.getLast? ≠ some '\r' := by
  have hid : ls.map stripCr = ls ↔ ls.map stripCr = ls.map id := by rw [map_id]
  rw [hid, map_eq_map_iff]
  exact forall₂_congr fun l _ => stripCr_eq_self_iff l

theorem indentOf_stripCr {l : Text} (hl : lineKey l = some key) : indentOf (stripCr l) = indentOf l := by
  obtain h | h := stripCr_cases l
  · rw [h]
  · conv_rhs => rw [h]
    unfold indentOf
    rw [takeWhile_append]
    split
    · -- a line of white space has no key
      rename_i hlen
      have hblank : Blank (stripCr l) := by
        have hall := all_eq_true.1 (all_takeWhile (l := stripCr l) (p := isWhitespace))
        rwa [(List.takeWhile_prefix isWhitespace).eq_of_length hlen] at hall
      rw [h, lineKey_append_cr, lineKey, splitOnce_eq_none (fun hm => absurd (hblank _ hm) (by decide))] at hl
      cases hl
    · rfl

theorem putLines_map_stripCr (ht : Closed tail) (ls : List Text) :
    putLines sect key tail (ls.map stripCr) = (putLines sect key tail ls).map stripCr := by
  have hnew : ∀ old, stripCr (newLine key tail old) = newLine key tail old := fun old =>
    (stripCr_eq_self_iff _).2 (getLast?_newLine ht old)
  refine Sections.put_map invisible_stripCr (hnew none) (fun l hl => ?_) ?_ ls false false
  · rw [hnew]
    show entryLine key tail (indentOf (stripCr l)) = entryLine key tail (indentOf l)
    rw [indentOf_stripCr hl]
  · exact (map_stripCr_eq_self_iff _).2 (getLast?_whole ht)

theorem putLines_putLines (hs : Word sect) (hk : Word key) (tail' : Text) (ls : List Text) :
    putLines sect key tail' (putLines sect key tail ls) = putLines sect key tail' ls := by
  have hwhole : shape.put sect key (newLine key tail') (whole sect key tail') false false (whole sect key tail) =
      whole sect key tail' := by
    have hline := puts_newLine tail hs hk
    unfold whole
    rw [Sections.put, show shape.header [] = none from rfl]
    simp only [Bool.false_eq_true, false_and, if_false]
    rw [Sections.put, header_shape, sectionName_header hs]
    simp only [Bool.false_eq_true, if_false, decide_true]
    rw [Sections.put, hline.plain]
    simp only
    rw [if_pos ⟨trivial, hline.keyed none⟩, newLine_newLine hk]
  exact Sections.put_put (puts_newLine _ hs hk) (newLine_newLine hk tail') hwhole ls false false (fun _ => rfl)

theorem put_twice_iff {tail' : Text} (hs : Word sect) (hk : Word key) (ht : Closed tail) (ht' : Closed tail')
    (t : Text) :
    unlines (putLines sect key tail' (lines (unlines (putLines sect key tail (lines t))))) =
      unlines (putLines sect key tail' (lines t)) ↔ NoCr sect key (lines t) := by
  have hfree := newline_not_mem_putLines hs hk ht' (newline_not_mem_lines t)
  rw [lines_putLines hs hk ht, putLines_map_stripCr ht', putLines_putLines hs hk, noCr_iff_putLines ht',
    ← map_stripCr_eq_self_iff]
  refine ⟨fun h => unlines_injective (fun l hl => ?_) hfree h, fun h => by rw [h]⟩
  obtain ⟨l', hl', rfl⟩ := mem_map.1 hl
  intro hm
  obtain h' | h' := stripCr_cases l'
  · rw [h'] at hm
    exact hfree l' hl' hm
  · exact hfree l' hl' (by rw [h']; exact mem_append_left _ hm)

theorem kept_iff (hs : Word sect) (hk : Word key) (ht : Closed tail) (t : Text) :
    (keptLines sect key (lines t)).Sublist (lines (unlines (putLines sect key tail (lines t)))) ↔
      NoCr sect key (lines t) := by
  rw [lines_putLines hs hk ht]
  constructor
  · intro hsub
    -- the lines put end in no more carriage returns than the kept ones, and lose one each
    have hkept : ((keptLines sect key (lines t)).map crs).sum ≤
        ((putLines sect key tail (lines t)).map (fun l => crs l - 1)).sum := by
      have hmap := List.Sublist.sum_le_sum (hsub.map crs) (fun _ _ => Nat.zero_le _)
      rw [map_map] at hmap
      rwa [show (crs ∘ stripCr) = fun l => crs l - 1 from funext crs_stripCr] at hmap
    have hput : ((putLines sect key tail (lines t)).map crs).sum ≤ ((keptLines sect key (lines t)).map crs).sum :=
      (placed tail (lines t)).sum_le crs (fun old => (crs_eq_zero_iff _).2 (getLast?_newLine ht old))
        (sum_eq_zero (fun n hn => by
          obtain ⟨l, hl, rfl⟩ := mem_map.1 hn
          exact (crs_eq_zero_iff l).2 (getLast?_whole ht l hl)))
    rw [noCr_iff_putLines ht]
    intro l hl
    rw [← crs_eq_zero_iff]
    by_contra hne
    have hlt : ((putLines sect key tail (lines t)).map (fun l => crs l - 1)).sum <
        ((putLines sect key tail (lines t)).map crs).sum :=
      sum_lt_sum _ _ (fun l _ => Nat.sub_le _ _) ⟨l, hl, by omega⟩
    omega
  · intro h
    rw [(map_stripCr_eq_self_iff _).2 ((noCr_iff_putLines ht _).1 h)]
    exact (placed tail (lines t)).sublist

theorem currentBool_newLine (hk : Word key) (b : Bool) (old : Option Text) :
    currentBool (newLine key (boolText b) old) = b := by
  unfold currentBool newLine
  rw [splitOnce_entryLine hk (blank_indent old)]
  simp only
  cases b <;> decide

theorem parse_newLine (hk : Word key) {v : Text} (hv : '"' ∉ v) (old : Option Text) :
    ((splitOnce '=' (newLine key (strTail v) old)).bind fun p => parseBasicString p.2) = some v := by
  have htight : Tight (strTail v) := by
    refine ⟨fun c hc => ?_, fun c hc => ?_⟩
    · rw [← Option.some.inj hc]
      decide
    · rw [strTail, ← cons_append, getLast?_concat] at hc
      rw [← Option.some.inj hc]
      decide
  have htrim : trim (' ' :: strTail v) = strTail v := by
    have h := trim_around htight (cons_ne_nil _ _) (v := [' ']) (w := [])
      (fun c hc => by rw [mem_singleton.1 hc]; decide) nofun
    rwa [append_nil] at h
  unfold newLine
  rw [splitOnce_entryLine hk (blank_indent old)]
  show parseBasicString (' ' :: strTail v) = some v
  unfold parseBasicString
  rw [htrim]
  show (splitOnce '"' (v ++ '"' :: [])).map Prod.fst = some v
  rw [splitOnce_append_cons [] hv]
  rfl

end

/-! ## Toggling -/

section

variable {sect key : Text}

def sectionNames (ls : List Text) : List Text := ls.filterMap sectionName

theorem toggleLoop_done : ∀ (ls : List Text) (inSection v : Bool),
    toggleLoop sect key inSection (some v) ls = (unlines ls, some v)
  | [], _, _ => rfl
  | line :: rest, inSection, v => by
    rw [toggleLoop, unlines_cons]
    cases sectionName line with
    | some name | none => simp [toggleLoop_done rest]

theorem readLoop_absent {β : Type} {value : Text → Option β} : ∀ {ls : List Text}, sect ∉ sectionNames ls →
    readLoop sect key value false ls = none
  | [], _ => rfl
  | line :: rest, h => by
    rw [readLoop]
    unfold sectionNames at h
    cases hname : sectionName line with
    | some name =>
      rw [filterMap_cons_some hname, mem_cons, not_or] at h
      simp only [decide_eq_false (Ne.symm h.1)]
      exact readLoop_absent h.2
    | none =>
      rw [filterMap_cons_none hname] at h
      exact readLoop_absent h

theorem toggleLoop_eq {cur : Bool} : ∀ (ls : List Text) (inSection sawSection : Bool), (sectionNames ls).Nodup →
    (inSection = true → sect ∉ sectionNames ls) → (inSection = true → sawSection = true) →
    readLoop sect key (fun line => some (currentBool line)) inSection ls = some cur →
    toggleLoop sect key inSection none ls =
      (setLoop sect key (pushBool key (!cur)) inSection sawSection false ls, some (!cur))
  | [], _, _, _, _, _, hread => by cases hread
  | line :: rest, inSection, sawSection, hnodup, hleft, hsaw, hread => by
    rw [readLoop] at hread
    rw [toggleLoop, setLoop]
    unfold sectionNames at hnodup hleft
    cases hname : sectionName line with
    | some name =>
      rw [hname] at hread
      rw [filterMap_cons_some hname] at hnodup hleft
      obtain ⟨hnot, hnodup⟩ := nodup_cons.1 hnodup
      cases inSection with
      | true =>
        -- past its section the key is not read any more
        have habsent := hleft rfl
        rw [mem_cons, not_or] at habsent
        simp only [decide_eq_false (Ne.symm habsent.1)] at hread
        rw [readLoop_absent habsent.2] at hread
        cases hread
      | false =>
        have hin : decide (name = sect) = true → sect ∉ sectionNames rest := fun hd => by
          rwa [← of_decide_eq_true hd]
        have ih := toggleLoop_eq rest (decide (name = sect)) (sawSection || decide (name = sect)) hnodup hin
          (fun hd => by rw [hd, Bool.or_true]) hread
        simp only [Bool.false_and, Bool.false_eq_true, if_false, nil_append, Bool.or_false]
        rw [ih]
    | none =>
      rw [hname] at hread
      rw [filterMap_cons_none hname] at hnodup hleft
      simp only [Bool.not_false, Option.isNone_none, Bool.and_true] at hread ⊢
      by_cases hkey : inSection = true ∧ lineKey line = some key
      · rw [if_pos hkey] at hread ⊢
        rw [if_pos hkey, toggleLoop_done, hsaw hkey.1, setLoop_wrote, ← Option.some.inj hread]
      · rw [if_neg hkey] at hread ⊢
        rw [if_neg hkey, toggleLoop_eq rest inSection sawSection hnodup hleft hsaw hread]

end

/-! ## The laws -/

/-- **The laws of the editor**, for every text, names and values. What was set is read, and nothing else is read
otherwise; a toggle sets the opposite of what is read, if the key is there and no section is headed twice. Setting
twice is setting once, and the lines not replaced are there in order, exactly when none of these lines ends in a
carriage return. -/
theorem config_editor_laws (t sect key : Text) (hs : Word sect) (hk : Word key) (b : Bool) (v : Text) (hv : '"' ∉ v)
    (hline : '\n' ∉ v) :
    (readBool (setBool t sect key b).1 sect key = some b ∧ readStr (setStr t sect key v) sect key = some v) ∧
    (∀ sect' key', (sect', key') ≠ (sect, key) →
      (readBool (setBool t sect key b).1 sect' key' = readBool t sect' key' ∧
        readStr (setBool t sect key b).1 sect' key' = readStr t sect' key') ∧
      readBool (setStr t sect key v) sect' key' = readBool t sect' key' ∧
        readStr (setStr t sect key v) sect' key' = readStr t sect' key') ∧
    (∀ b₀, setBool (setBool t sect key b₀).1 sect key b = setBool t sect key b ↔ NoCr sect key (lines t)) ∧
    (∀ v₀, '\n' ∉ v₀ →
      (setStr (setStr t sect key v₀) sect key v = setStr t sect key v ↔ NoCr sect key (lines t))) ∧
    ((keptLines sect key (lines t)).Sublist (lines (setBool t sect key b).1) ↔ NoCr sect key (lines t)) ∧
    ((keptLines sect key (lines t)).Sublist (lines (setStr t sect key v)) ↔ NoCr sect key (lines t)) ∧
    ((sectionNames (lines t)).Nodup → ∀ cur, readBool t sect key = some cur →
      toggleBool t sect key = some (setBool t sect key (!cur))) := by
  have hb := closed_boolText b
  have hstr := closed_strTail hline
  have hbool : ∀ l, (fun line => some (currentBool line)) (stripCr l) = some (currentBool l) := fun l =>
    congrArg some (currentBool_stripCr l)
  refine ⟨⟨?_, ?_⟩, fun sect' key' hne => ⟨⟨?_, ?_⟩, ?_, ?_⟩, fun b₀ => ?_, fun v₀ hv₀ => ?_, ?_, ?_,
    fun hnodup cur hcur => ?_⟩
  · rw [setBool_eq]
    exact readLoop_putLines_same hs hk hb t hbool (fun old => congrArg some (currentBool_newLine hk b old))
  · rw [setStr_eq]
    exact readLoop_putLines_same hs hk hstr t parse_stripCr (parse_newLine hk hv)
  · rw [setBool_eq]
    exact readLoop_putLines_other hs hk hb t hbool hne
  · rw [setBool_eq]
    exact readLoop_putLines_other hs hk hb t parse_stripCr hne
  · rw [setStr_eq]
    exact readLoop_putLines_other hs hk hstr t hbool hne
  · rw [setStr_eq]
    exact readLoop_putLines_other hs hk hstr t parse_stripCr hne
  · rw [setBool_eq, setBool_eq, setBool_eq, Prod.mk.injEq, and_iff_left rfl]
    exact put_twice_iff hs hk (closed_boolText b₀) hb t
  · rw [setStr_eq, setStr_eq, setStr_eq]
    exact put_twice_iff hs hk (closed_strTail hv₀) hstr t
  · rw [setBool_eq]
    exact kept_iff hs hk hb t
  · rw [setStr_eq]
    exact kept_iff hs hk hstr t
  · unfold toggleBool setBool
    rw [toggleLoop_eq (lines t) false false hnodup Bool.noConfusion Bool.noConfusion hcur]
    rfl

theorem word_of_check {w : Text} (h : trim w = w ∧ w ≠ [] ∧
    w.all (fun c => decide (c ≠ '[' ∧ c ≠ ']' ∧ c ≠ '=' ∧ c ≠ '#' ∧ c ≠ '\n')) = true) : Word w :=
  ⟨h.1, h.2.1, fun c hc => of_decide_eq_true (all_eq_true.1 h.2.2 c hc)⟩

theorem config_editor_laws_ftp :
    readBool (setBool "[ftp]\n  enabled = false\n".toList "ftp".toList "enabled".toList true).1 "ftp".toList
      "enabled".toList = some true :=
  (config_editor_laws "[ftp]\n  enabled = false\n".toList "ftp".toList "enabled".toList (word_of_check (by decide))
    (word_of_check (by decide)) true [] (by decide) (by decide)).1.1

/-- **A carriage return is lost**: a last line that ends in one is not among the lines after an edit, and a second edit
to the same value changes the text again. -/
theorem config_editor_drops_cr :
    let t := "# note\r".toList
    let out := (setBool t "ftp".toList "enabled".toList true).1
    lines t = ["# note\r".toList] ∧ "# note\r".toList ∉ lines out ∧
      (setBool out "ftp".toList "enabled".toList true).1 ≠ out := by
  decide

end TailscaleVita.Demo
