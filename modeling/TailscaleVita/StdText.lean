import Mathlib.Algebra.Ring.Nat
import Mathlib.Data.List.Basic
/-!
# StdText — the standard library's text functions

Text is a list of characters; a byte length is the length of its UTF-8 form. Only what the clients of this module call
is here.
-/
namespace TailscaleVita

open List

abbrev Text := List Char

abbrev Bytes := List (BitVec 8)

/-- `str::len`: the number of bytes of the UTF-8 form. -/
def utf8Len (s : Text) : Nat := (s.map Char.utf8Size).sum

def utf8 (s : Text) : Bytes := s.flatMap (fun c => (String.utf8EncodeChar c).map UInt8.toBitVec)

def fromUtf8 (bs : Bytes) : Option Text :=
  ((bs.map UInt8.ofBitVec).toByteArray.utf8Decode?).map Array.toList

def splitOnce (c : Char) : Text → Option (Text × Text)
  | [] => none
  | x :: xs => if x = c then some ([], xs) else (splitOnce c xs).map (fun p => (x :: p.1, p.2))

def cutAt {α : Type} [DecidableEq α] (a : α) : List α → Option (List α × List α)
  | [] => none
  | x :: xs => if x = a then some ([], xs) else (cutAt a xs).map (fun p => (x :: p.1, p.2))

def rsplitOnce (c : Char) : Text → Option (Text × Text)
  | [] => none
  | x :: xs =>
    match rsplitOnce c xs with
    | some p => some (x :: p.1, p.2)
    | none => if x = c then some ([], xs) else none

/-- `str::lines`: a line ends in `\n` or `\r\n`, and the last one need not end. -/
def lines : Text → List Text
  | [] => []
  | '\n' :: s => [] :: lines s
  | '\r' :: '\n' :: s => [] :: lines s
  | c :: s =>
    match lines s with
    | [] => [[c]]
    | line :: rest => (c :: line) :: rest

def stripLeading : Text → Text → Option Text
  | [], s => some s
  | _ :: _, [] => none
  | p :: ps, x :: xs => if x = p then stripLeading ps xs else none

def contains (needle : Text) : Text → Bool
  | [] => needle.isEmpty
  | c :: s => needle.isPrefixOf (c :: s) || contains needle s

def isWhitespace (c : Char) : Bool :=
  let n := c.toNat
  (9 ≤ n && n ≤ 13) || n == 0x20 || n == 0x85 || n == 0xA0 || n == 0x1680 || (0x2000 ≤ n && n ≤ 0x200A) ||
    n == 0x2028 || n == 0x2029 || n == 0x202F || n == 0x205F || n == 0x3000

def trim (s : Text) : Text := ((s.dropWhile isWhitespace).reverse.dropWhile isWhitespace).reverse

def toDigit (radix : Nat) (c : Char) : Option Nat :=
  let n := c.toNat
  let d := if 48 ≤ n && n ≤ 57 then n - 48
    else if 97 ≤ n && n ≤ 122 then n - 87
    else if 65 ≤ n && n ≤ 90 then n - 55
    else radix
  if d < radix then some d else none

def readDigits (w radix : Nat) : Nat → Text → Option Nat
  | acc, [] => some acc
  | acc, c :: cs =>
    match toDigit radix c with
    | none => none
    | some d => if acc * radix + d < 2 ^ w then readDigits w radix (acc * radix + d) cs else none

def fromStrRadix (w radix : Nat) (s : Text) : Option (BitVec w) :=
  match s with
  | [] => none
  | ['+'] => none
  | '+' :: ds => (readDigits w radix 0 ds).map (BitVec.ofNat w)
  | ds => (readDigits w radix 0 ds).map (BitVec.ofNat w)

variable {c : Char} {s : Text}

theorem splitOnce_eq_none : ∀ {s : Text}, c ∉ s → splitOnce c s = none
  | [], _ => rfl
  | x :: xs, h => by
    rw [mem_cons, not_or] at h
    rw [splitOnce, if_neg (Ne.symm h.1), splitOnce_eq_none h.2]
    rfl

theorem splitOnce_append_cons (rest : Text) :
    ∀ {s : Text}, c ∉ s → splitOnce c (s ++ c :: rest) = some (s, rest)
  | [], _ => if_pos rfl
  | x :: xs, h => by
    rw [mem_cons, not_or] at h
    rw [cons_append, splitOnce, if_neg (Ne.symm h.1), splitOnce_append_cons rest h.2]
    rfl

theorem splitOnce_append {more : Text} (h : c ∉ more) : ∀ s : Text,
    splitOnce c (s ++ more) = (splitOnce c s).map (fun p => (p.1, p.2 ++ more))
  | [] => splitOnce_eq_none h
  | x :: xs => by
    rw [cons_append, splitOnce, splitOnce, splitOnce_append h xs]
    split
    · rfl
    · rw [Option.map_map, Option.map_map]
      rfl

theorem cutAt_append_cons {α : Type} [DecidableEq α] {a : α} (rest : List α) :
    ∀ {l : List α}, a ∉ l → cutAt a (l ++ a :: rest) = some (l, rest)
  | [], _ => if_pos rfl
  | x :: xs, h => by
    rw [mem_cons, not_or] at h
    rw [cons_append, cutAt, if_neg (Ne.symm h.1), cutAt_append_cons rest h.2]
    rfl

theorem cutAt_eq_none {α : Type} [DecidableEq α] {a : α} : ∀ {l : List α}, a ∉ l → cutAt a l = none
  | [], _ => rfl
  | x :: xs, h => by
    rw [mem_cons, not_or] at h
    rw [cutAt, if_neg (Ne.symm h.1), cutAt_eq_none h.2]
    rfl

theorem stripLeading_append : ∀ lead s : Text, stripLeading lead (lead ++ s) = some s
  | [], _ => rfl
  | p :: lead, s => by rw [cons_append, stripLeading, if_pos rfl, stripLeading_append lead s]

theorem eq_append_of_stripLeading : ∀ {lead s rest : Text}, stripLeading lead s = some rest → s = lead ++ rest
  | [], _, _, h => Option.some.inj h
  | p :: lead, [], _, h => by cases h
  | p :: lead, x :: s, rest, h => by
    rw [stripLeading] at h
    split at h
    next hx => rw [hx, cons_append, eq_append_of_stripLeading h]
    · cases h

theorem lines_of_plain : ∀ {s : Text}, (∀ c ∈ s, c ≠ '\n' ∧ c ≠ '\r') → lines (s ++ ['\n']) = [s]
  | [], _ => rfl
  | c :: s, h => by
    have ih := lines_of_plain (s := s) (fun c' hc' => h c' (mem_cons_of_mem c hc'))
    have hc := h c mem_cons_self
    rw [cons_append]
    unfold lines
    split
    next heq => cases heq
    next heq => exact absurd (List.cons.inj heq).1 hc.1
    next heq => exact absurd (List.cons.inj heq).1 hc.2
    next heq =>
      obtain ⟨rfl, rfl⟩ := List.cons.inj heq
      rw [ih]

/-! ## Lines -/

def stripCr (line : Text) : Text := if line.getLast? = some '\r' then line.dropLast else line

def unlines (ls : List Text) : Text := ls.flatMap (· ++ ['\n'])

theorem unlines_cons (l : Text) (ls : List Text) : unlines (l :: ls) = l ++ ('\n' :: unlines ls) := by
  unfold unlines
  rw [flatMap_cons, append_assoc]
  rfl

theorem stripCr_append {l : Text} (hl : l ≠ []) (front : Text) : stripCr (front ++ l) = front ++ stripCr l := by
  unfold stripCr
  rw [getLast?_append_of_ne_nil _ hl]
  split
  · exact dropLast_append_of_ne_nil hl
  · rfl

theorem lines_append_newline (s : Text) : ∀ {l : Text}, '\n' ∉ l → lines (l ++ '\n' :: s) = stripCr l :: lines s
  | [], _ => by
    rw [nil_append, lines]
    rfl
  | [c], h => by
    have hc : c ≠ '\n' := fun he => h (by rw [he]; exact mem_singleton_self _)
    by_cases hr : c = '\r'
    · subst hr
      rfl
    · show lines (c :: '\n' :: s) = _
      have hstrip : stripCr [c] = [c] := if_neg (fun he => hr (Option.some.inj he))
      rw [lines]
      · rw [lines, hstrip]
      · exact hc
      · exact fun _ he => absurd he hr
  | c :: d :: l, h => by
    have hc : c ≠ '\n' := fun he => h (by rw [he]; exact mem_cons_self)
    have hd : d ≠ '\n' := fun he => h (by rw [he]; exact mem_cons_of_mem _ mem_cons_self)
    have ih := lines_append_newline s (l := d :: l) (fun hm => h (mem_cons_of_mem c hm))
    have hstrip : stripCr (c :: d :: l) = c :: stripCr (d :: l) := stripCr_append (cons_ne_nil d l) [c]
    rw [cons_append] at ih ⊢
    rw [cons_append, lines]
    · rw [ih, hstrip]
    · exact hc
    · exact fun s' _ he => hd (List.cons.inj he).1

theorem lines_unlines : ∀ {ls : List Text}, (∀ l ∈ ls, '\n' ∉ l) → lines (unlines ls) = ls.map stripCr
  | [], _ => rfl
  | l :: ls, h => by
    rw [unlines_cons, lines_append_newline _ (h l mem_cons_self), map_cons,
      lines_unlines (fun l' hl' => h l' (mem_cons_of_mem l hl'))]

theorem unlines_injective : ∀ {ls ls' : List Text}, (∀ l ∈ ls, '\n' ∉ l) → (∀ l ∈ ls', '\n' ∉ l) →
    unlines ls = unlines ls' → ls = ls'
  | [], [], _, _, _ => rfl
  | [], l :: ls, _, _, h => by
    rw [unlines_cons] at h
    exact absurd (congrArg List.length h) (by simp [unlines])
  | l :: ls, [], _, _, h => by
    rw [unlines_cons] at h
    exact absurd (congrArg List.length h) (by simp [unlines])
  | l :: ls, l' :: ls', hls, hls', h => by
    rw [unlines_cons, unlines_cons] at h
    have hsplit := congrArg (splitOnce '\n') h
    rw [splitOnce_append_cons _ (hls l mem_cons_self),
      splitOnce_append_cons _ (hls' l' mem_cons_self)] at hsplit
    obtain ⟨rfl, hrest⟩ := Prod.mk.inj (Option.some.inj hsplit)
    rw [unlines_injective (fun m hm => hls m (mem_cons_of_mem _ hm))
      (fun m hm => hls' m (mem_cons_of_mem _ hm)) hrest]

theorem newline_not_mem_lines : ∀ (s : Text), ∀ l ∈ lines s, '\n' ∉ l := by
  intro s
  fun_induction lines s with
  | case1 => exact fun l hl => by cases hl
  | case2 s ih | case3 s ih =>
    intro l hl
    rcases mem_cons.1 hl with rfl | hl
    · exact not_mem_nil
    · exact ih l hl
  | case4 c s hn hr heq ih =>
    intro l hl
    rw [mem_singleton.1 hl]
    exact fun hm => hn (mem_singleton.1 hm).symm
  | case5 c s hn hr line rest heq ih =>
    intro l hl
    rcases mem_cons.1 hl with rfl | hl
    · intro hm
      rcases mem_cons.1 hm with hm | hm
      · exact hn hm.symm
      · exact ih line (by rw [heq]; exact mem_cons_self) hm
    · exact ih l (by rw [heq]; exact mem_cons_of_mem _ hl)

/-! ## UTF-8 -/

theorem utf8Len_cons (c : Char) (s : Text) : utf8Len (c :: s) = c.utf8Size + utf8Len s := by
  unfold utf8Len
  rw [map_cons, sum_cons]

theorem utf8Len_append (a b : Text) : utf8Len (a ++ b) = utf8Len a + utf8Len b := by
  unfold utf8Len
  rw [map_append, sum_append]

theorem utf8Len_of_ascii : ∀ {s : Text}, (∀ c ∈ s, c.utf8Size = 1) → utf8Len s = s.length
  | [], _ => rfl
  | c :: s, h => by
    rw [utf8Len_cons, h c mem_cons_self, utf8Len_of_ascii (fun c' hc' => h c' (mem_cons_of_mem c hc')),
      length_cons, Nat.add_comm]

theorem utf8_append (a b : Text) : utf8 (a ++ b) = utf8 a ++ utf8 b := by
  unfold utf8
  rw [flatMap_append]

theorem utf8_ne_nil {a : Text} (h : a ≠ []) : utf8 a ≠ [] := by
  obtain ⟨c, rest, rfl⟩ := exists_cons_of_ne_nil h
  unfold utf8
  rw [flatMap_cons]
  refine append_ne_nil_of_left_ne_nil (fun hnil => ?_) _
  have hlen := congrArg List.length hnil
  simp only [length_map, String.length_utf8EncodeChar, length_nil] at hlen
  exact absurd hlen (Nat.ne_of_gt c.utf8Size_pos)

theorem fromUtf8_utf8 (s : Text) : fromUtf8 (utf8 s) = some s := by
  have hbytes : (utf8 s).map UInt8.ofBitVec = s.flatMap String.utf8EncodeChar := by
    unfold utf8
    rw [map_flatMap]
    congr 1
    funext c
    rw [map_map]
    exact map_id _
  have hencode : (s.flatMap String.utf8EncodeChar).toByteArray = s.utf8Encode := rfl
  unfold fromUtf8
  rw [hbytes, hencode, List.utf8Decode?_utf8Encode]
  rfl

def asciiText (bs : Bytes) : Text := bs.map (fun b => Char.ofNat b.toNat)

theorem utf8EncodeChar_ascii : ∀ n < 128,
    (String.utf8EncodeChar (Char.ofNat n)).map UInt8.toBitVec = [BitVec.ofNat 8 n] := by decide

theorem utf8_asciiText : ∀ {bs : Bytes}, (∀ b ∈ bs, b.toNat < 128) → utf8 (asciiText bs) = bs
  | [], _ => rfl
  | b :: bs, h => by
    have hb : (String.utf8EncodeChar (Char.ofNat b.toNat)).map UInt8.toBitVec = [b] := by
      rw [utf8EncodeChar_ascii b.toNat (h b mem_cons_self), BitVec.ofNat_toNat, BitVec.setWidth_eq]
    have ih : utf8 (asciiText bs) = bs := utf8_asciiText (fun b' hb' => h b' (mem_cons_of_mem b hb'))
    unfold utf8 asciiText at ih ⊢
    rw [map_cons, flatMap_cons, hb, ih]
    rfl

theorem utf8_ascii {c : Char} (h : c.toNat < 128) : utf8 [c] = [BitVec.ofNat 8 c.toNat] := by
  have hbyte := utf8EncodeChar_ascii c.toNat h
  rw [Char.ofNat_toNat] at hbyte
  unfold utf8
  rw [flatMap_singleton, hbyte]

/-! ## UTF-8, byte by byte -/

def secondByte (a b : BitVec 8) : Bool :=
  let least : BitVec 8 := if a = 0xE0 then 0xA0 else if a = 0xF0 then 0x90 else 0x80
  let most : BitVec 8 := if a = 0xED then 0x9F else if a = 0xF4 then 0x8F else 0xBF
  decide (least ≤ b ∧ b ≤ most)

def continuation (b : BitVec 8) : Bool := decide (0x80 ≤ b ∧ b ≤ 0xBF)

def utf8Valid : Bytes → Bool
  | [] => true
  | a :: rest =>
    if a ≤ 0x7F then utf8Valid rest
    else
      match rest with
      | [] => false
      | b :: rest =>
        if 0xC2 ≤ a ∧ a ≤ 0xDF then continuation b && utf8Valid rest
        else
          match rest with
          | [] => false
          | c :: rest =>
            if 0xE0 ≤ a ∧ a ≤ 0xEF then secondByte a b && continuation c && utf8Valid rest
            else
              match rest with
              | [] => false
              | d :: rest =>
                decide (0xF0 ≤ a ∧ a ≤ 0xF4) && secondByte a b && continuation c && continuation d && utf8Valid rest

def encodeChar (c : Char) : Bytes := (String.utf8EncodeChar c).map UInt8.toBitVec

theorem utf8_cons (c : Char) (s : Text) : utf8 (c :: s) = encodeChar c ++ utf8 s := flatMap_cons

theorem encodeChar_eq {c : Char} {v : Nat} (hv : c.toNat = v) : encodeChar c =
    if v ≤ 0x7F then [BitVec.ofNat 8 v]
    else if v ≤ 0x7FF then [BitVec.ofNat 8 (v / 64 % 32 + 0xC0), BitVec.ofNat 8 (v % 64 + 0x80)]
    else if v ≤ 0xFFFF then [BitVec.ofNat 8 (v / 4096 % 16 + 0xE0), BitVec.ofNat 8 (v / 64 % 64 + 0x80),
      BitVec.ofNat 8 (v % 64 + 0x80)]
    else [BitVec.ofNat 8 (v / 262144 % 8 + 0xF0), BitVec.ofNat 8 (v / 4096 % 64 + 0x80),
      BitVec.ofNat 8 (v / 64 % 64 + 0x80), BitVec.ofNat 8 (v % 64 + 0x80)] := by
  subst hv
  unfold encodeChar String.utf8EncodeChar
  simp only [apply_ite (List.map UInt8.toBitVec), map_cons, map_nil]
  rfl

variable {n : Nat}

theorem toNat_byte (h : n < 256) : (BitVec.ofNat 8 n).toNat = n := by
  rw [BitVec.toNat_ofNat]
  omega

variable {b : BitVec 8}

theorem continuation_iff : continuation b = true ↔ 0x80 ≤ b.toNat ∧ b.toNat ≤ 0xBF := by
  unfold continuation
  rw [decide_eq_true_eq]
  exact Iff.rfl

theorem secondByte_iff {a b : BitVec 8} : secondByte a b = true ↔
    (0x80 ≤ b.toNat ∧ b.toNat ≤ 0xBF) ∧ (a.toNat = 0xE0 → 0xA0 ≤ b.toNat) ∧ (a.toNat = 0xF0 → 0x90 ≤ b.toNat) ∧
    (a.toNat = 0xED → b.toNat ≤ 0x9F) ∧ (a.toNat = 0xF4 → b.toNat ≤ 0x8F) := by
  unfold secondByte
  rw [decide_eq_true_eq, BitVec.le_def, BitVec.le_def]
  simp only [BitVec.toNat_eq, apply_ite BitVec.toNat, BitVec.reduceToNat]
  split_ifs <;> omega

inductive CharBytes : Bytes → Prop where
  | one {a : BitVec 8} (ha : a.toNat ≤ 0x7F) : CharBytes [a]
  | two {a b : BitVec 8} (ha : 0xC2 ≤ a.toNat ∧ a.toNat ≤ 0xDF) (hb : continuation b = true) : CharBytes [a, b]
  | three {a b c : BitVec 8} (ha : 0xE0 ≤ a.toNat ∧ a.toNat ≤ 0xEF) (hb : secondByte a b = true)
      (hc : continuation c = true) : CharBytes [a, b, c]
  | four {a b c d : BitVec 8} (ha : 0xF0 ≤ a.toNat ∧ a.toNat ≤ 0xF4) (hb : secondByte a b = true)
      (hc : continuation c = true) (hd : continuation d = true) : CharBytes [a, b, c, d]

variable {q : Bytes}

theorem CharBytes.valid (h : CharBytes q) (rest : Bytes) : utf8Valid (q ++ rest) = utf8Valid rest := by
  cases h with
  | one ha =>
    rw [cons_append, nil_append, utf8Valid.eq_def]
    exact if_pos ha
  | two ha hb =>
    rw [cons_append, cons_append, nil_append, utf8Valid.eq_def]
    simp only [BitVec.le_def, BitVec.reduceToNat]
    rw [if_neg (by omega), if_pos ha, hb, Bool.true_and]
  | three ha hb hc =>
    rw [cons_append, cons_append, cons_append, nil_append, utf8Valid.eq_def]
    simp only [BitVec.le_def, BitVec.reduceToNat]
    rw [if_neg (by omega), if_neg (by omega), if_pos ha, hb, hc, Bool.true_and, Bool.true_and]
  | four ha hb hc hd =>
    rw [cons_append, cons_append, cons_append, cons_append, nil_append, utf8Valid.eq_def]
    simp only [BitVec.le_def, BitVec.reduceToNat]
    rw [if_neg (by omega), if_neg (by omega), if_neg (by omega), decide_eq_true ha, hb, hc, hd]
    simp

theorem exists_charBytes {a : BitVec 8} {rest : Bytes} (h : utf8Valid (a :: rest) = true) :
    ∃ q rest', CharBytes q ∧ a :: rest = q ++ rest' ∧ utf8Valid rest' = true := by
  rw [utf8Valid.eq_def] at h
  simp only [BitVec.le_def, BitVec.reduceToNat] at h
  split at h
  next ha => exact ⟨[a], rest, .one ha, rfl, h⟩
  · split at h
    · cases h
    next b rest =>
      split at h
      next ha =>
        rw [Bool.and_eq_true] at h
        exact ⟨[a, b], rest, .two ha h.1, rfl, h.2⟩
      · split at h
        · cases h
        next c rest =>
          split at h
          next ha =>
            rw [Bool.and_eq_true, Bool.and_eq_true] at h
            exact ⟨[a, b, c], rest, .three ha h.1.1 h.1.2, rfl, h.2⟩
          · split at h
            · cases h
            next d rest =>
              simp only [Bool.and_eq_true, decide_eq_true_eq] at h
              obtain ⟨⟨⟨⟨ha, hb⟩, hc⟩, hd⟩, hrest⟩ := h
              exact ⟨[a, b, c, d], rest, .four ha hb hc hd, rfl, hrest⟩

theorem charBytes_encodeChar (c : Char) : CharBytes (encodeChar c) := by
  have hscalar : c.toNat < 0xD800 ∨ 0xDFFF < c.toNat ∧ c.toNat < 0x110000 := c.valid
  rw [encodeChar_eq rfl]
  split
  · exact .one (by rw [toNat_byte (by omega)]; assumption)
  · split
    · refine .two ?_ (continuation_iff.2 ?_)
      · rw [toNat_byte (by omega)]
        omega
      · rw [toNat_byte (by omega)]
        omega
    · split
      · refine .three ?_ (secondByte_iff.2 ?_) (continuation_iff.2 ?_)
        · rw [toNat_byte (by omega)]
          omega
        · rw [toNat_byte (by omega), toNat_byte (by omega)]
          omega
        · rw [toNat_byte (by omega)]
          omega
      · refine .four ?_ (secondByte_iff.2 ?_) (continuation_iff.2 ?_) (continuation_iff.2 ?_)
        · rw [toNat_byte (by omega)]
          omega
        · rw [toNat_byte (by omega), toNat_byte (by omega)]
          omega
        · rw [toNat_byte (by omega)]
          omega
        · rw [toNat_byte (by omega)]
          omega

theorem eq_byte {a : BitVec 8} (h : a.toNat = n) : BitVec.ofNat 8 n = a := by
  subst h
  rw [BitVec.ofNat_toNat, BitVec.setWidth_eq]

theorem CharBytes.exists_char (h : CharBytes q) : ∃ c, encodeChar c = q := by
  have hchar : ∀ v, v < 0xD800 ∨ 0xDFFF < v ∧ v < 0x110000 → ∃ c : Char, c.toNat = v :=
    fun v hv => ⟨Char.ofNatAux v hv, rfl⟩
  cases h with
  | @one a ha =>
    obtain ⟨c, hc⟩ := hchar a.toNat (by omega)
    refine ⟨c, ?_⟩
    rw [encodeChar_eq hc, if_pos ha, eq_byte rfl]
  | @two a b ha hb =>
    rw [continuation_iff] at hb
    obtain ⟨c, hc⟩ := hchar (a.toNat % 32 * 64 + b.toNat % 64) (by omega)
    refine ⟨c, ?_⟩
    rw [encodeChar_eq hc, if_neg (by omega), if_pos (by omega), eq_byte (a := a) (by omega),
      eq_byte (a := b) (by omega)]
  | @three a b c ha hb hc =>
    rw [continuation_iff] at hc
    rw [secondByte_iff] at hb
    obtain ⟨x, hx⟩ := hchar (a.toNat % 16 * 4096 + b.toNat % 64 * 64 + c.toNat % 64) (by omega)
    refine ⟨x, ?_⟩
    rw [encodeChar_eq hx, if_neg (by omega), if_neg (by omega), if_pos (by omega), eq_byte (a := a) (by omega),
      eq_byte (a := b) (by omega), eq_byte (a := c) (by omega)]
  | @four a b c d ha hb hc hd =>
    rw [continuation_iff] at hc hd
    rw [secondByte_iff] at hb
    obtain ⟨x, hx⟩ := hchar (a.toNat % 8 * 262144 + b.toNat % 64 * 4096 + c.toNat % 64 * 64 + d.toNat % 64) (by omega)
    refine ⟨x, ?_⟩
    rw [encodeChar_eq hx, if_neg (by omega), if_neg (by omega), if_neg (by omega), eq_byte (a := a) (by omega),
      eq_byte (a := b) (by omega), eq_byte (a := c) (by omega), eq_byte (a := d) (by omega)]

theorem utf8Valid_utf8 : ∀ s : Text, utf8Valid (utf8 s) = true
  | [] => rfl
  | c :: s => by
    rw [utf8_cons, (charBytes_encodeChar c).valid]
    exact utf8Valid_utf8 s

theorem utf8Valid_iff (bs : Bytes) : utf8Valid bs = true ↔ ∃ s : Text, utf8 s = bs := by
  constructor
  · -- by the length: each character takes at least one byte away
    induction hlen : bs.length using Nat.strong_induction_on generalizing bs with
    | _ n ih =>
      intro h
      cases bs with
      | nil => exact ⟨[], rfl⟩
      | cons a rest =>
        obtain ⟨q, rest', hq, hsplit, hrest⟩ := exists_charBytes h
        have hpos : 0 < q.length := by cases hq <;> exact Nat.succ_pos _
        obtain ⟨c, rfl⟩ := hq.exists_char
        have hshort : rest'.length < n := by
          rw [← hlen, hsplit, length_append]
          omega
        obtain ⟨s, rfl⟩ := ih _ hshort rest' rfl hrest
        exact ⟨c :: s, by rw [utf8_cons, hsplit]⟩
  · rintro ⟨s, rfl⟩
    exact utf8Valid_utf8 s

theorem CharBytes.tail_high (h : CharBytes q) : ∀ b ∈ q.tail, 0x80 ≤ b.toNat := by
  cases h with
  | one => simp
  | two _ hb => simpa using (continuation_iff.1 hb).1
  | three _ hb hc => simpa using ⟨(secondByte_iff.1 hb).1.1, (continuation_iff.1 hc).1⟩
  | four _ hb hc hd =>
    simpa using ⟨(secondByte_iff.1 hb).1.1, (continuation_iff.1 hc).1, (continuation_iff.1 hd).1⟩

theorem utf8_cut (hb : b.toNat < 0x80) {r : Bytes} : ∀ {s : Text} {l : Bytes},
    utf8 s = l ++ b :: r → (∃ s1, utf8 s1 = l) ∧ ∃ s2, utf8 s2 = b :: r
  | s, [], h => ⟨⟨[], rfl⟩, s, h⟩
  | [], _ :: _, h => by cases h
  | c :: s, a :: l, h => by
    rw [utf8_cons] at h
    rcases append_eq_append_iff.1 h with ⟨m, hl, hs⟩ | ⟨m, hq, hr⟩
    · obtain ⟨⟨s1, hs1⟩, hs2⟩ := utf8_cut hb hs
      exact ⟨⟨c :: s1, by rw [utf8_cons, hs1, hl]⟩, hs2⟩
    · cases m with
      | nil =>
        rw [append_nil] at hq
        exact ⟨⟨[c], by rw [utf8_cons, hq]; exact append_nil _⟩, s, hr.symm⟩
      | cons b' m =>
        -- the byte would be inside a character
        have hhigh := (charBytes_encodeChar c).tail_high b' (by rw [hq]; simp)
        cases hr
        omega

theorem mem_utf8_ascii {b : BitVec 8} (hb : b.toNat < 128) (h : b ∈ utf8 s) : ∃ c ∈ s, c.toNat = b.toNat := by
  obtain ⟨c, hc, hbytes⟩ := mem_flatMap.1 h
  refine ⟨c, hc, ?_⟩
  have hchar : b ∈ encodeChar c := hbytes
  rw [encodeChar_eq rfl] at hchar
  -- every byte of a longer encoding is past 127
  split at hchar
  · rw [mem_singleton.1 hchar, toNat_byte (by omega)]
  · exfalso
    split at hchar
    · rcases hchar with _ | ⟨_, _ | ⟨_, ⟨⟩⟩⟩ <;> rw [toNat_byte (by omega)] at hb <;> omega
    · split at hchar
      · rcases hchar with _ | ⟨_, _ | ⟨_, _ | ⟨_, ⟨⟩⟩⟩⟩ <;> rw [toNat_byte (by omega)] at hb <;> omega
      · rcases hchar with _ | ⟨_, _ | ⟨_, _ | ⟨_, _ | ⟨_, ⟨⟩⟩⟩⟩⟩ <;> rw [toNat_byte (by omega)] at hb <;> omega

theorem utf8_of_fromUtf8 {bs : Bytes} {s : Text} (h : fromUtf8 bs = some s) : utf8 s = bs := by
  obtain ⟨cs, hcs, rfl⟩ := Option.map_eq_some_iff.1 h
  have hsome : (bs.map UInt8.ofBitVec).toByteArray.utf8Decode?.isSome = true := by rw [hcs]; rfl
  have hback := ByteArray.utf8Encode_get_utf8Decode? (h := hsome)
  simp only [hcs, Option.get_some] at hback
  have hbytes : cs.toList.flatMap String.utf8EncodeChar = bs.map UInt8.ofBitVec := toByteArray_inj.1 hback
  have hmap : utf8 cs.toList = (cs.toList.flatMap String.utf8EncodeChar).map UInt8.toBitVec := by
    unfold utf8
    rw [map_flatMap]
  rw [hmap, hbytes, map_map]
  exact map_id _

/-! ## White space -/

def Tight (s : Text) : Prop :=
  (∀ c, s.head? = some c → isWhitespace c = false) ∧ ∀ c, s.getLast? = some c → isWhitespace c = false

theorem dropWhile_of_head {p : Char → Bool} : ∀ {s : Text}, (∀ c, s.head? = some c → p c = false) → s.dropWhile p = s
  | [], _ => rfl
  | c :: s, h => dropWhile_cons_of_neg (by rw [h c rfl]; exact Bool.false_ne_true)

theorem trim_append (hs : Tight s) (hne : s ≠ []) (w : Text) (hw : ∀ c ∈ w, isWhitespace c = true) :
    trim (s ++ w) = s := by
  have hhead : (s ++ w).dropWhile isWhitespace = s ++ w :=
    dropWhile_of_head (by rw [head?_append_of_ne_nil s hne]; exact hs.1)
  have hlast : s.reverse.dropWhile isWhitespace = s.reverse :=
    dropWhile_of_head (by rw [head?_reverse]; exact hs.2)
  have hall : ∀ c ∈ w.reverse, isWhitespace c = true := fun c hc => hw c (mem_reverse.1 hc)
  unfold trim
  rw [hhead, reverse_append, dropWhile_append_of_pos hall, hlast, reverse_reverse]

theorem trim_of_tight (hs : Tight s) : trim s = s := by
  by_cases hne : s = []
  · rw [hne]
    rfl
  · have h := trim_append hs hne [] nofun
    rwa [append_nil] at h

theorem trim_around (hs : Tight s) (hne : s ≠ []) {v w : Text} (hv : ∀ c ∈ v, isWhitespace c = true)
    (hw : ∀ c ∈ w, isWhitespace c = true) : trim (v ++ (s ++ w)) = s := by
  have hdrop : trim (v ++ (s ++ w)) = trim (s ++ w) := by
    unfold trim
    rw [dropWhile_append_of_pos hv]
  rw [hdrop]
  exact trim_append hs hne w hw

theorem trim_append_space (s : Text) (hc : isWhitespace c = true) : trim (s ++ [c]) = trim s := by
  unfold trim
  rw [dropWhile_append]
  split
  next hempty =>
    rw [isEmpty_iff.1 hempty, dropWhile_cons_of_pos hc]
    rfl
  · rw [reverse_append]
    exact congrArg List.reverse (dropWhile_cons_of_pos hc)

theorem tight_of_trim (h : trim s = s) : Tight s := by
  have hend : ∀ (l : Text) c, (l.dropWhile isWhitespace).head? = some c → isWhitespace c = false := by
    intro l c hc
    have hnot := head?_dropWhile_not isWhitespace l
    rwa [hc] at hnot
  have hlast : s.getLast? = ((s.dropWhile isWhitespace).reverse.dropWhile isWhitespace).head? := by
    conv_lhs => rw [← h]
    unfold trim
    rw [getLast?_reverse]
  refine ⟨fun c hc => ?_, fun c hc => hend _ c (by rw [← hlast]; exact hc)⟩
  -- a text that is trimmed is not shorter behind its first white space
  have hdrop : s.dropWhile isWhitespace = s := by
    refine (dropWhile_suffix isWhitespace).eq_of_length_le ?_
    calc s.length = (trim s).length := by rw [h]
      _ ≤ (s.dropWhile isWhitespace).length := by
        unfold trim
        rw [length_reverse]
        refine Nat.le_trans (dropWhile_suffix isWhitespace).length_le ?_
        rw [length_reverse]
  exact hend s c (by rw [hdrop]; exact hc)

theorem toNat_of_isDigit (h : c.isDigit = true) : 48 ≤ c.toNat ∧ c.toNat ≤ 57 :=
  Char.isDigit_iff_toNat.1 h

theorem toList_toString (n : Nat) : (toString n).toList = Nat.toDigits 10 n := by
  rw [Nat.toString_eq_repr, Nat.repr_eq_ofList_toDigits, String.toList_ofList]

theorem isWhitespace_of_isDigit (h : c.isDigit = true) : isWhitespace c = false := by
  have hrange := toNat_of_isDigit h
  simp only [isWhitespace, Bool.or_eq_false_iff, Bool.and_eq_false_iff, decide_eq_false_iff_not, beq_eq_false_iff_ne]
  omega

/-! ## Numbers -/

theorem readDigits_append (w radix : Nat) (ys : Text) : ∀ (acc : Nat) (xs : Text),
    readDigits w radix acc (xs ++ ys) = (readDigits w radix acc xs).bind (fun v => readDigits w radix v ys)
  | _, [] => rfl
  | acc, c :: xs => by
    rw [cons_append, readDigits, readDigits]
    cases toDigit radix c with
    | none => rfl
    | some d =>
      show (if _ then _ else _) = Option.bind (if _ then _ else _) _
      split
      · exact readDigits_append w radix ys _ xs
      · rfl

theorem toDigit_digitChar : ∀ d < 10, toDigit 10 (Nat.digitChar d) = some d := by decide

theorem readDigits_toDigits (w : Nat) : ∀ n < 2 ^ w, readDigits w 10 0 (Nat.toDigits 10 n) = some n := by
  intro n
  induction n using Nat.strong_induction_on with
  | h n ih =>
    intro hn
    by_cases hsmall : n < 10
    · rw [Nat.toDigits_of_lt_base hsmall, readDigits, toDigit_digitChar n hsmall]
      show (if 0 * 10 + n < 2 ^ w then _ else _) = _
      rw [Nat.zero_mul, Nat.zero_add, if_pos hn, readDigits]
    · have hdiv : n / 10 < n := Nat.div_lt_self (by omega) (by omega)
      have hmod : n / 10 * 10 + n % 10 = n := Nat.div_add_mod' n 10
      -- all digits but the last are those of `n / 10`
      rw [Nat.toDigits_of_base_le (by omega) (by omega), readDigits_append, ih (n / 10) hdiv (by omega)]
      show readDigits w 10 (n / 10) [Nat.digitChar (n % 10)] = some n
      rw [readDigits, toDigit_digitChar _ (Nat.mod_lt n (by omega))]
      show (if n / 10 * 10 + n % 10 < 2 ^ w then _ else _) = _
      rw [hmod, if_pos hn, readDigits]

theorem fromStrRadix_eq {w radix : Nat} (hne : s ≠ []) (h : '+' ∉ s) :
    fromStrRadix w radix s = (readDigits w radix 0 s).map (BitVec.ofNat w) := by
  unfold fromStrRadix
  split
  · exact absurd rfl hne
  · exact absurd mem_cons_self h
  · exact absurd mem_cons_self h
  · rfl

theorem fromStrRadix_toDigits {w n : Nat} (h : n < 2 ^ w) :
    fromStrRadix w 10 (Nat.toDigits 10 n) = some (BitVec.ofNat w n) := by
  have hplus : '+' ∉ Nat.toDigits 10 n := fun hm =>
    absurd (Nat.isDigit_of_mem_toDigits (by decide) (by decide) hm) (by decide)
  rw [fromStrRadix_eq Nat.toDigits_ne_nil hplus, readDigits_toDigits w n h]
  rfl

def hex16 (n : Nat) : Text :=
  (range 16).reverse.map (fun k => "0123456789abcdef".toList.getD (n / 16 ^ k % 16) '0')

theorem hex16_digits {c : Char} {n : Nat} (h : c ∈ hex16 n) : c ∈ "0123456789abcdef".toList := by
  obtain ⟨k, -, rfl⟩ := mem_map.1 h
  rw [getD_eq_getElem?_getD]
  cases hd : "0123456789abcdef".toList[n / 16 ^ k % 16]? with
  | none => exact mem_cons_self
  | some d => exact mem_of_getElem? hd

end TailscaleVita
