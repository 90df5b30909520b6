import TailscaleVita.PeerName
/-!
# PeerNaming — which names a dropped file can get (`ts-peerapi/src/name.rs`)

What `sanitize_filename` lets through is a plain file name, and it is the name that was encoded, in whatever way the
sender encoded it. What `next_free_name` makes of a name that is taken is free and plain too, but longer.
-/
namespace TailscaleVita.Peer

open List
open Fs (Name)

/-! ## Names that come in -/

def HexDigit (h : BitVec 8) (d : Nat) : Prop :=
  (ascii "0123456789abcdef")[d]? = some h ∨ (ascii "0123456789ABCDEF")[d]? = some h

/-- A percent-encoding of a name: `%` is escaped, and so is any other byte that the sender chose to escape. -/
inductive Encodes : Bytes → Name → Prop where
  | nil : Encodes [] []
  | literal {b : BitVec 8} {raw name : Bytes} (hb : b ≠ 0x25) (h : Encodes raw name) : Encodes (b :: raw) (b :: name)
  | escaped {b hi lo : BitVec 8} {raw name : Bytes} (hhi : HexDigit hi (b.toNat / 16))
      (hlo : HexDigit lo (b.toNat % 16)) (h : Encodes raw name) : Encodes (0x25 :: hi :: lo :: raw) (b :: name)

structure SafeName (name : Name) : Prop where
  nonempty : name ≠ []
  notDot : name ≠ ascii "." ∧ name ≠ ascii ".."
  short : name.length ≤ 255
  text : ∃ s : Text, utf8 s = name
  plain : ∀ b ∈ name, b ≠ 0x2F ∧ b ≠ 0x5C ∧ b ≠ 0x3A ∧ ¬ b < 0x20 ∧ b ≠ 0x7F

instance (h : BitVec 8) (d : Nat) : Decidable (HexDigit h d) := inferInstanceAs (Decidable (_ ∨ _))

theorem HexDigit.value {h : BitVec 8} {d : Nat} (hdigit : HexDigit h d) : hexVal h = some (BitVec.ofNat 8 d) := by
  have hall : ∀ digits ∈ [ascii "0123456789abcdef", ascii "0123456789ABCDEF"], ∀ i : Fin digits.length,
      hexVal (digits.get i) = some (BitVec.ofNat 8 i) := by decide
  rcases hdigit with hdigit | hdigit
  · obtain ⟨hlt, rfl⟩ := List.getElem?_eq_some_iff.1 hdigit
    exact hall _ List.mem_cons_self ⟨d, hlt⟩
  · obtain ⟨hlt, rfl⟩ := List.getElem?_eq_some_iff.1 hdigit
    exact hall _ (List.mem_cons_of_mem _ List.mem_cons_self) ⟨d, hlt⟩

theorem digit_of_hexVal {h v : BitVec 8} (hv : hexVal h = some v) : v.toNat < 16 ∧ HexDigit h v.toNat := by
  have hall : ∀ h, (hexVal h).all (fun v => decide (v.toNat < 16 ∧ HexDigit h v.toNat)) = true := by decide +kernel
  have hh := hall h
  rw [hv] at hh
  exact of_decide_eq_true hh

theorem badByte_iff (b : BitVec 8) : badByte b = none ↔ b ≠ 0x2F ∧ b ≠ 0x5C ∧ b ≠ 0x3A ∧ ¬ b < 0x20 ∧ b ≠ 0x7F := by
  revert b
  decide +kernel

theorem validate_ok_iff (name : Name) : validate name = .ok () ↔ name ≠ [] ∧ (name ≠ ascii "." ∧ name ≠ ascii "..") ∧
    name.length ≤ 255 ∧ ∀ b ∈ name, b ≠ 0x2F ∧ b ≠ 0x5C ∧ b ≠ 0x3A ∧ ¬ b < 0x20 ∧ b ≠ 0x7F := by
  have hscan : name.findSome? badByte = none ↔ ∀ b ∈ name, b ≠ 0x2F ∧ b ≠ 0x5C ∧ b ≠ 0x3A ∧ ¬ b < 0x20 ∧ b ≠ 0x7F := by
    rw [findSome?_eq_none_iff]
    exact forall₂_congr (fun b _ => badByte_iff b)
  rw [← hscan]
  unfold validate
  by_cases hnil : name = []
  · simp [hnil]
  by_cases hdot : name = ascii "." ∨ name = ascii ".."
  · rw [if_neg hnil, if_pos hdot]
    tauto
  by_cases hlong : maxNameBytes < name.length
  · rw [if_neg hnil, if_neg hdot, if_pos hlong]
    simp only [reduceCtorEq, false_iff]
    exact fun h => absurd h.2.2.1 (Nat.not_le.2 hlong)
  · rw [if_neg hnil, if_neg hdot, if_neg hlong]
    have hshort : name.length ≤ 255 := Nat.le_of_not_lt hlong
    cases name.findSome? badByte with
    | none => simp [hnil, not_or.1 hdot, hshort]
    | some e => simp

theorem toNat_nibbles {hi lo : BitVec 8} (hhi : hi.toNat < 16) (hlo : lo.toNat < 16) :
    ((hi <<< 4) ||| lo).toNat = hi.toNat * 16 + lo.toNat := by
  rw [BitVec.toNat_or, BitVec.toNat_shiftLeft, Nat.shiftLeft_eq, Nat.mod_eq_of_lt (by omega), Nat.mul_comm,
    ← Nat.two_pow_add_eq_or_of_lt hlo, Nat.mul_comm]

theorem exists_of_map_ok {ε α β : Type} {f : α → β} {x : Except ε α} {b : β} (h : x.map f = .ok b) :
    ∃ a, x = .ok a ∧ f a = b := by
  cases x with
  | error e => cases h
  | ok a =>
    cases h
    exact ⟨a, rfl, rfl⟩

theorem percentDecodeOnce_ok_iff (raw : Bytes) (name : Name) : percentDecodeOnce raw = .ok name ↔ Encodes raw name := by
  constructor
  · intro h
    fun_induction percentDecodeOnce raw generalizing name with
    | case1 =>
      cases h
      exact .nil
    | case2 x y input hi lo hlo hhi ih =>
      obtain ⟨out, hout, rfl⟩ := exists_of_map_ok h
      obtain ⟨hhi16, hhi⟩ := digit_of_hexVal hhi
      obtain ⟨hlo16, hlo⟩ := digit_of_hexVal hlo
      refine .escaped ?_ ?_ (ih out hout)
      · rwa [toNat_nibbles hhi16 hlo16, show (hi.toNat * 16 + lo.toNat) / 16 = hi.toNat by omega]
      · rwa [toNat_nibbles hhi16 hlo16, show (hi.toNat * 16 + lo.toNat) % 16 = lo.toNat by omega]
    | case3 | case4 => cases h
    | case5 b input hb ih =>
      obtain ⟨out, hout, rfl⟩ := exists_of_map_ok h
      exact .literal hb (ih out hout)
  · intro h
    induction h with
    | nil => rfl
    | literal hb _ ih =>
      rw [percentDecodeOnce.eq_def]
      simp only [if_neg hb, ih]
      rfl
    | @escaped b hi lo raw name hhi hlo _ ih =>
      have hbyte : (BitVec.ofNat 8 (b.toNat / 16) <<< 4) ||| BitVec.ofNat 8 (b.toNat % 16) = b := by
        refine BitVec.eq_of_toNat_eq ?_
        have hhi := toNat_byte (n := b.toNat / 16) (by omega)
        have hlo := toNat_byte (n := b.toNat % 16) (by omega)
        rw [toNat_nibbles (by omega) (by omega), hhi, hlo]
        omega
      rw [percentDecodeOnce.eq_def]
      simp only [↓reduceIte, hhi.value, hlo.value, ih, hbyte]
      rfl

/-- **What `sanitize_filename` lets through** is a plain file name, and the one that was encoded; and it lets through
every encoding of every plain file name. -/
theorem sanitizeFilename_ok_iff (raw : Bytes) (name : Name) :
    sanitizeFilename raw = .ok name ↔ SafeName name ∧ Encodes raw name := by
  have hsafe : SafeName name ↔ utf8Valid name = true ∧ validate name = .ok () := by
    rw [validate_ok_iff, utf8Valid_iff]
    exact ⟨fun h => ⟨h.text, h.nonempty, h.notDot, h.short, h.plain⟩,
      fun ⟨htext, hnonempty, hdot, hshort, hplain⟩ => ⟨hnonempty, hdot, hshort, htext, hplain⟩⟩
  rw [← percentDecodeOnce_ok_iff, hsafe]
  unfold sanitizeFilename
  cases percentDecodeOnce raw with
  | error e => simp
  | ok decoded =>
    simp only [Except.ok.injEq]
    constructor
    · intro h
      split at h
      next hvalid =>
        cases hname : validate decoded with
        | error e =>
          rw [hname] at h
          cases h
        | ok u =>
          rw [hname] at h
          cases h
          exact ⟨⟨hvalid, hname⟩, rfl⟩
      · cases h
    · rintro ⟨⟨hvalid, hname⟩, rfl⟩
      rw [if_pos hvalid, hname]

/-! ## Names that are taken -/

theorem splitStemExt_cases (name : Name) :
    (splitStemExt name = (name, []) ∧ 0x2E ∉ name.tail) ∨
    ∃ stem ext, splitStemExt name = (stem, 0x2E :: ext) ∧ name = stem ++ 0x2E :: ext ∧ stem ≠ [] ∧ 0x2E ∉ ext := by
  unfold splitStemExt
  cases hdot : name.reverse.findIdx? (fun b => decide (b = 0x2E)) with
  | none =>
    rw [findIdx?_eq_none_iff] at hdot
    refine .inl ⟨rfl, fun hmem => ?_⟩
    have := hdot 0x2E (mem_reverse.2 (mem_of_mem_tail hmem))
    simp at this
  | some k =>
    obtain ⟨hk, hat, hbefore⟩ := findIdx?_eq_some_iff_getElem.1 hdot
    -- the bytes behind the dot, the dot and the bytes before it, from the end
    have hsplit : name.reverse = name.reverse.take k ++ 0x2E :: name.reverse.drop (k + 1) := by
      rw [← of_decide_eq_true hat, getElem_cons_drop, take_append_drop]
    have hext : 0x2E ∉ name.reverse.take k := by
      intro hmem
      obtain ⟨j, hj, heq⟩ := mem_take_iff_getElem.1 hmem
      exact hbefore j (by omega) (decide_eq_true heq)
    have hname : name = (name.reverse.drop (k + 1)).reverse ++ 0x2E :: (name.reverse.take k).reverse := by
      have := congrArg List.reverse hsplit
      simpa using this
    have hpos : name.length - 1 - k = (name.reverse.drop (k + 1)).reverse.length := by
      simp only [length_reverse, length_drop]
      omega
    rw [length_reverse] at hk
    generalize (name.reverse.drop (k + 1)).reverse = stem at hname hpos
    generalize hrev : name.reverse.take k = ext at hname hext
    simp only [hpos]
    cases stem with
    | nil =>
      rw [if_neg (by decide)]
      refine .inl ⟨rfl, ?_⟩
      rw [hname]
      exact fun hmem => hext (mem_reverse.1 hmem)
    | cons b stem =>
      rw [if_pos (show 0 < (b :: stem).length from Nat.succ_pos _), splitAt_eq]
      have hbehind : 0x2E ∉ ext.reverse := fun hmem => hext (mem_reverse.1 hmem)
      refine .inr ⟨b :: stem, ext.reverse, ?_, hname, cons_ne_nil b stem, hbehind⟩
      nth_rewrite 1 2 [hname]
      rw [take_left, drop_left]

theorem splitStemExt_append (name : Name) : (splitStemExt name).1 ++ (splitStemExt name).2 = name := by
  rcases splitStemExt_cases name with ⟨h, -⟩ | ⟨stem, ext, h, hname, -⟩
  · rw [h, append_nil]
  · rw [h, hname]

def mark (n : Nat) : Bytes := ascii " (" ++ ascii (toString n) ++ ascii ")"

theorem numbered_eq (base : Name) (n : Nat) :
    numbered base n = (splitStemExt base).1 ++ mark n ++ (splitStemExt base).2 := by
  unfold numbered mark
  simp

theorem mark_ascii (hb : b ∈ mark n) : b.toNat < 0x80 ∧ badByte b = none := by
  have hplain : ∀ d < 58, 48 ≤ d → (BitVec.ofNat 8 d).toNat < 0x80 ∧ badByte (BitVec.ofNat 8 d) = none := by decide
  unfold mark ascii at hb
  rw [toList_toString, mem_append, mem_append] at hb
  rcases hb with (hb | hb) | hb
  · revert b
    decide
  · obtain ⟨c, hc, rfl⟩ := mem_map.1 hb
    have hdigit := toNat_of_isDigit (Nat.isDigit_of_mem_toDigits (by decide) (by decide) hc)
    exact hplain c.toNat (by omega) hdigit.1
  · revert b
    decide

theorem mark_length (n : Nat) : (mark n).length = (toString n).length + 3 := by
  unfold mark ascii
  simp only [length_append, length_map, String.length_toList]
  rw [show " (".length = 2 from rfl, show ")".length = 1 from rfl]
  omega

theorem numbered_length (base : Name) (n : Nat) : (numbered base n).length = base.length + (toString n).length + 3 := by
  have hbase := congrArg List.length (splitStemExt_append base)
  rw [length_append] at hbase
  rw [numbered_eq, length_append, length_append, mark_length]
  omega

variable {base : Name}

theorem numbered_text (h : ∃ s : Text, utf8 s = base) (n : Nat) : ∃ s : Text, utf8 s = numbered base n := by
  have hparts : (∃ s : Text, utf8 s = (splitStemExt base).1) ∧ ∃ s : Text, utf8 s = (splitStemExt base).2 := by
    obtain ⟨s, hs⟩ := h
    rcases splitStemExt_cases base with ⟨hsplit, -⟩ | ⟨stem, ext, hsplit, hbase, -⟩
    · rw [hsplit]
      exact ⟨⟨s, hs⟩, [], rfl⟩
    · rw [hsplit]
      exact utf8_cut (by decide) (hs.trans hbase)
  obtain ⟨⟨stem, hstem⟩, ext, hext⟩ := hparts
  refine ⟨stem ++ asciiText (mark n) ++ ext, ?_⟩
  rw [utf8_append, utf8_append, utf8_asciiText (fun b hb => (mark_ascii hb).1), hstem, hext, numbered_eq]

theorem validate_numbered (h : validate base = .ok ()) (n : Nat) :
    validate (numbered base n) = .ok () ↔ base.length + (toString n).length + 3 ≤ maxNameBytes := by
  have hlen := numbered_length base n
  obtain ⟨-, -, -, hplain⟩ := (validate_ok_iff base).1 h
  rw [validate_ok_iff, hlen]
  refine ⟨fun hok => hok.2.2.1, fun hshort => ⟨?_, ⟨?_, ?_⟩, hshort, fun b hb => ?_⟩⟩
  · intro hnil
    rw [hnil] at hlen
    simp at hlen
  · intro hdot
    rw [hdot, show (ascii ".").length = 1 from rfl] at hlen
    omega
  · intro hdot
    rw [hdot, show (ascii "..").length = 2 from rfl] at hlen
    omega
  · rw [← splitStemExt_append base] at hplain
    rw [numbered_eq] at hb
    rcases mem_append.1 hb with hb | hb
    · rcases mem_append.1 hb with hb | hb
      · exact hplain b (mem_append_left _ hb)
      · exact (badByte_iff b).1 (mark_ascii hb).2
    · exact hplain b (mem_append_right _ hb)

/-- The number that a taken name gets: the least one whose name is free. -/
structure FirstFree (base : Name) (existing : Finset Name) (n : Nat) : Prop where
  taken : base ∈ existing
  inRange : 1 ≤ n ∧ n ≤ 100
  free : numbered base n ∉ existing
  least : ∀ m, 1 ≤ m → m < n → numbered base m ∈ existing

theorem nextFreeName_eq_some {existing : Finset Name} {r : Name} :
    nextFreeName base existing = some r ↔
      (base ∉ existing ∧ r = base) ∨ ∃ n, FirstFree base existing n ∧ r = numbered base n := by
  unfold nextFreeName
  by_cases hbase : base ∈ existing
  · rw [if_neg (not_not_intro hbase), find?_map, Option.map_eq_some_iff]
    simp only [find?_range'_eq_some, Function.comp_apply, decide_eq_true_eq, mem_range'_1, Bool.not_eq_true',
      decide_eq_false_iff_not, not_not, maxCollision]
    constructor
    · rintro ⟨n, ⟨hfree, hrange, hleast⟩, rfl⟩
      exact .inr ⟨n, ⟨hbase, ⟨hrange.1, by omega⟩, hfree, hleast⟩, rfl⟩
    · rintro (⟨hfree, -⟩ | ⟨n, hn, rfl⟩)
      · exact absurd hbase hfree
      · exact ⟨n, ⟨hn.free, ⟨hn.inRange.1, by have := hn.inRange.2; omega⟩, hn.least⟩, rfl⟩
  · rw [if_pos hbase]
    constructor
    · rintro ⟨⟩
      exact .inl ⟨hbase, rfl⟩
    · rintro (⟨-, rfl⟩ | ⟨n, hn, -⟩)
      · rfl
      · exact absurd hn.taken hbase

theorem nextFreeName_eq_none {existing : Finset Name} : nextFreeName base existing = none ↔
    base ∈ existing ∧ ∀ n, 1 ≤ n → n ≤ 100 → numbered base n ∈ existing := by
  unfold nextFreeName
  by_cases hbase : base ∈ existing
  · rw [if_neg (not_not_intro hbase), find?_map, Option.map_eq_none_iff, find?_range'_eq_none]
    simp only [Function.comp_apply, Bool.not_eq_true', decide_eq_false_iff_not, not_not, maxCollision]
    refine ⟨fun h => ⟨hbase, fun n hn hle => h n hn (by omega)⟩, fun h n hn hlt => h.2 n hn (by omega)⟩
  · rw [if_pos hbase]
    simp [hbase]

/-- **What a taken name becomes.** For every name that is accepted and every set of names: what comes back is free, is
a text if the name was, and is the name itself or the candidate with the least number that is free; nothing comes back
exactly when all are taken. What comes back is accepted too, if and only if that candidate, where there is one, is not
over 255 bytes long. -/
theorem next_free_name_accepted_iff (base : Name) (existing : Finset Name) (hbase : validate base = .ok ()) :
    (∀ r, nextFreeName base existing = some r →
      r ∉ existing ∧ ((∃ s : Text, utf8 s = base) → ∃ s : Text, utf8 s = r) ∧
      (r = base ∨ ∃ n, FirstFree base existing n ∧ r = numbered base n)) ∧
    (nextFreeName base existing = none ↔
      base ∈ existing ∧ ∀ n, 1 ≤ n → n ≤ 100 → numbered base n ∈ existing) ∧
    ((∀ r, nextFreeName base existing = some r → validate r = .ok ()) ↔
      ∀ n, FirstFree base existing n → base.length + (toString n).length + 3 ≤ 255) := by
  refine ⟨fun r hr => ?_, nextFreeName_eq_none, fun h n hn => ?_, fun h r hr => ?_⟩
  · rcases nextFreeName_eq_some.1 hr with ⟨hfree, rfl⟩ | ⟨n, hn, rfl⟩
    · exact ⟨hfree, id, .inl rfl⟩
    · exact ⟨hn.free, fun htext => numbered_text htext n, .inr ⟨n, hn, rfl⟩⟩
  · exact (validate_numbered hbase n).1 (h _ (nextFreeName_eq_some.2 (.inr ⟨n, hn, rfl⟩)))
  · rcases nextFreeName_eq_some.1 hr with ⟨-, rfl⟩ | ⟨n, hn, rfl⟩
    · exact hbase
    · exact (validate_numbered hbase n).2 (h n hn)

theorem next_free_name_second :
    let base := ascii "foo.txt"
    let existing : Finset Name := {base, ascii "foo (1).txt"}
    nextFreeName base existing = some (ascii "foo (2).txt") ∧ ascii "foo (2).txt" ∉ existing := by
  intro base existing
  have hfound : nextFreeName base existing = some (ascii "foo (2).txt") := by decide +kernel
  exact ⟨hfound, ((next_free_name_accepted_iff base existing (by decide +kernel)).1 _ hfound).1⟩

/-- **A long name that is taken becomes one that is too long**: 255 bytes are accepted, and ` (1)` makes them 259. -/
theorem long_name_numbered :
    let base := List.replicate 255 (0x61 : BitVec 8)
    validate base = .ok () ∧ nextFreeName base {base} = some (base ++ ascii " (1)") ∧
    validate (base ++ ascii " (1)") = .error .tooLong := by
  decide +kernel

end TailscaleVita.Peer
