import TailscaleVita.CtlKeys
import TailscaleVita.CtlNetmap
/-!
# CtlKeyText — which texts the key decoders take (`ts-control/src/types.rs`, `netmap.rs`)

A key is read in four ways: as a machine key, as a node key, and by the netmap as a node key or a disco key. All four
cut the text into pairs of bytes and hand each to `u8::from_str_radix`, which takes a `+` and one digit for a number as
well. The first two panic where a cut falls inside a character; the netmap's cut asks first.
-/
namespace TailscaleVita.Ctl

open List Option

structure NodePublic where
  bytes : KeyBytes
  size : bytes.length = 32

theorem NodePublic.bytes_inj {a b : NodePublic} : a.bytes = b.bytes ↔ a = b := by
  rw [NodePublic.mk.injEq]

instance : DecidableEq NodePublic := fun _ _ => decidable_of_iff _ NodePublic.bytes_inj

def fromNodekeyStr (s : Text) : Except KeyFault NodePublic :=
  let hex := (stripLeading nodekeyLead (trim s)).getD (trim s)
  if utf8Len hex ≠ 64 then .error (.badServerKey "expected 64 hex chars in nodekey".toList)
  else (keyOfHex hex).map (fun key => ⟨key.bytes, key.size⟩)

def NodePublic.toNodekeyString (key : NodePublic) : Text := nodekeyLead ++ encodeHex key.bytes

structure DiscoPublic where
  bytes : KeyBytes
  size : bytes.length = 32

def DiscoPublic.toDiscokeyString (key : DiscoPublic) : Text := discokeyLead ++ encodeHex key.bytes

def hexValue (a b : Char) : Option (BitVec 8) :=
  (toDigit 16 a).bind (fun hi => (toDigit 16 b).map (fun lo => BitVec.ofNat 8 (hi * 16 + lo)))

def readHex : Text → Option KeyBytes
  | [] => some []
  | [_] => none
  | a :: b :: rest => (hexValue a b).bind (fun x => (readHex rest).map (x :: ·))

/-- A text that should be read as the key `bytes`: 64 hexadecimal digits, and before them the prefix or nothing. -/
def Spells (lead s : Text) (bytes : KeyBytes) : Prop :=
  ∃ hex, (s = lead ++ hex ∨ s = hex) ∧ hex.length = 64 ∧ readHex hex = some bytes

/-! ## What the decoders take -/

theorem toDigit_lt {radix d : Nat} {c : Char} (h : toDigit radix c = some d) : d < radix := by
  unfold toDigit at h
  simp only [ite_none_right_eq_some, Option.some.injEq] at h
  obtain ⟨hlt, rfl⟩ := h
  exact hlt

theorem utf8Size_of_toDigit {d : Nat} {c : Char} (h : toDigit 16 c = some d) : c.utf8Size = 1 := by
  have hle : c.toNat ≤ 122 := by
    by_contra hgt
    unfold toDigit at h
    have h57 : ¬ c.toNat ≤ 57 := by omega
    have h90 : ¬ c.toNat ≤ 90 := by omega
    simp [h57, h90, hgt] at h
  have hval : c.val ≤ 0x7F := by
    rw [UInt32.le_iff_toNat_le]
    exact Nat.le_trans hle (by decide)
  exact if_pos hval

theorem fromStrRadix_pair (a b : Char) : fromStrRadix 8 16 [a, b] =
    if a = '+' then (toDigit 16 b).map (BitVec.ofNat 8) else hexValue a b := by
  have hlast : ∀ hi < 16, readDigits 8 16 hi [b] = (toDigit 16 b).map (fun lo => hi * 16 + lo) := by
    intro hi hlt
    rw [readDigits]
    cases hb : toDigit 16 b with
    | none => rfl
    | some lo =>
      have hlo := toDigit_lt hb
      simp only [if_pos (show hi * 16 + lo < 2 ^ 8 by omega), readDigits, Option.map_some]
  by_cases hplus : a = '+'
  · subst hplus
    rw [if_pos rfl]
    show (readDigits 8 16 0 [b]).map (BitVec.ofNat 8) = _
    rw [hlast 0 (by decide), Option.map_map]
    simp [Function.comp_def]
  · rw [if_neg hplus]
    have hdigits : fromStrRadix 8 16 [a, b] = (readDigits 8 16 0 [a, b]).map (BitVec.ofNat 8) := by
      unfold fromStrRadix
      split <;> simp_all
    rw [hdigits, readDigits, hexValue]
    cases ha : toDigit 16 a with
    | none => rfl
    | some hi =>
      have hhi := toDigit_lt ha
      simp only [Nat.zero_mul, Nat.zero_add, if_pos (show hi < 2 ^ 8 by omega), hlast hi hhi, Option.map_map,
        Option.bind_some]
      rfl

def pairTaken (a b : Char) : Bool := ((toDigit 16 a).isSome || a == '+') && (toDigit 16 b).isSome

theorem isSome_fromStrRadix (a b : Char) : (fromStrRadix 8 16 [a, b]).isSome = pairTaken a b := by
  rw [fromStrRadix_pair, pairTaken, hexValue]
  by_cases hplus : a = '+'
  · simp [hplus]
  · cases toDigit 16 a <;> simp [hplus]

theorem utf8Size_of_pairTaken {a b : Char} (h : pairTaken a b = true) : a.utf8Size = 1 ∧ b.utf8Size = 1 := by
  rw [pairTaken, Bool.and_eq_true, Bool.or_eq_true] at h
  obtain ⟨ha, hb⟩ := h
  obtain ⟨lo, hlo⟩ := isSome_iff_exists.1 hb
  refine ⟨?_, utf8Size_of_toDigit hlo⟩
  rcases ha with ha | ha
  · obtain ⟨hi, hhi⟩ := isSome_iff_exists.1 ha
    exact utf8Size_of_toDigit hhi
  · rw [eq_of_beq ha]
    decide

def pairsTaken : Text → Bool
  | [] => true
  | [_] => false
  | a :: b :: rest => pairTaken a b && pairsTaken rest

theorem isSome_hexPairs : ∀ hex : Text, (hexPairs hex).isSome = pairsTaken hex
  | [] => rfl
  | [_] => rfl
  | a :: b :: rest => by
    have hpair := isSome_fromStrRadix a b
    rw [hexPairs, pairsTaken, ← isSome_hexPairs rest, ← hpair]
    cases fromStrRadix 8 16 [a, b] <;> simp

theorem hexPairs_length : ∀ {hex : Text} {bytes : KeyBytes}, hexPairs hex = some bytes →
    hex.length = bytes.length * 2 ∧ utf8Len hex = bytes.length * 2
  | [], _, h => by
    cases h
    exact ⟨rfl, rfl⟩
  | [_], _, h => by cases h
  | a :: b :: rest, bytes, h => by
    have htaken : pairTaken a b = true := by
      have hsome := congrArg Option.isSome h
      rw [isSome_hexPairs, pairsTaken] at hsome
      exact (Bool.and_eq_true_iff.1 hsome).1
    rw [hexPairs] at h
    cases hpair : fromStrRadix 8 16 [a, b] with
    | none =>
      rw [hpair] at h
      cases h
    | some x =>
      simp only [hpair, map_eq_some_iff] at h
      obtain ⟨xs, hxs, rfl⟩ := h
      obtain ⟨hlen, hutf8⟩ := hexPairs_length hxs
      obtain ⟨ha, hb⟩ := utf8Size_of_pairTaken htaken
      rw [utf8Len_cons, utf8Len_cons, ha, hb, hutf8]
      simp only [length_cons, hlen]
      omega

theorem hexValue_plus {a b : Char} {x : BitVec 8} (h : hexValue a b = some x) : a ≠ '+' ∧ b ≠ '+' := by
  have hnone : toDigit 16 '+' = none := by decide
  obtain ⟨hi, hhi, hlo⟩ := bind_eq_some_iff.1 h
  obtain ⟨lo, hlo, -⟩ := map_eq_some_iff.1 hlo
  constructor <;> rintro rfl
  · cases hnone.symm.trans hhi
  · cases hnone.symm.trans hlo

theorem readHex_eq_some : ∀ {hex : Text} {bytes : KeyBytes},
    readHex hex = some bytes ↔ hexPairs hex = some bytes ∧ '+' ∉ hex
  | [], bytes => by simp [readHex, hexPairs]
  | [_], bytes => by simp [readHex, hexPairs]
  | a :: b :: rest, bytes => by
    rw [readHex, hexPairs, fromStrRadix_pair]
    constructor
    · intro h
      obtain ⟨x, hx, hrest⟩ := bind_eq_some_iff.1 h
      obtain ⟨xs, hxs, rfl⟩ := map_eq_some_iff.1 hrest
      obtain ⟨ha, hb⟩ := hexValue_plus hx
      obtain ⟨hpairs, hplus⟩ := readHex_eq_some.1 hxs
      refine ⟨?_, by simp [Ne.symm ha, Ne.symm hb, hplus]⟩
      simp [if_neg ha, hx, hpairs]
    · rintro ⟨hpairs, hplus⟩
      simp only [mem_cons, not_or] at hplus
      rw [if_neg (Ne.symm hplus.1)] at hpairs
      cases hx : hexValue a b with
      | none =>
        rw [hx] at hpairs
        cases hpairs
      | some x =>
        simp only [hx, map_eq_some_iff] at hpairs
        obtain ⟨xs, hxs, rfl⟩ := hpairs
        rw [bind_some, readHex_eq_some.2 ⟨hxs, hplus.2.2⟩]
        rfl

theorem decodePairs_eq_ok : ∀ {hex : Text} {bytes : KeyBytes}, decodePairs hex = .ok bytes ↔ hexPairs hex = some bytes
  | [], bytes => by simp [decodePairs, hexPairs]
  | [a], bytes => by
    rw [decodePairs, hexPairs]
    split <;> simp
  | a :: b :: rest, bytes => by
    rw [decodePairs, hexPairs]
    cases hpair : fromStrRadix 8 16 [a, b] with
    | none => split <;> [skip; split] <;> simp
    | some x =>
      have htaken : pairTaken a b = true := by rw [← isSome_fromStrRadix, hpair]; rfl
      obtain ⟨ha, hb⟩ := utf8Size_of_pairTaken htaken
      rw [if_neg (by omega), if_neg (by omega)]
      simp only [map_eq_some_iff]
      constructor
      · intro h
        cases hrest : decodePairs rest with
        | error e =>
          rw [hrest] at h
          cases h
        | ok xs =>
          rw [hrest] at h
          cases h
          exact ⟨xs, decodePairs_eq_ok.1 hrest, rfl⟩
      · rintro ⟨xs, hxs, rfl⟩
        rw [decodePairs_eq_ok.2 hxs]
        rfl

def cutsNext : Text → Bool
  | [] => false
  | [a] => decide (2 < a.utf8Size)
  | a :: b :: _ => decide (2 < a.utf8Size ∨ a.utf8Size = 1 ∧ 1 < b.utf8Size)

/-- After pairs that are taken, the next cut falls inside a character. -/
def CutsInside (hex : Text) : Prop := ∃ taken rest, hex = taken ++ rest ∧ pairsTaken taken = true ∧ cutsNext rest = true

theorem cutsInside_short {hex : Text} (h : hex.length < 2) : CutsInside hex ↔ cutsNext hex = true := by
  constructor
  · rintro ⟨taken, rest, rfl, htaken, hcut⟩
    match taken, htaken, h with
    | [], _, _ => exact hcut
    | _ :: _ :: _, _, h =>
      simp only [cons_append, length_cons] at h
      omega
  · intro hcut
    exact ⟨[], hex, rfl, rfl, hcut⟩

theorem cutsInside_cons (a b : Char) (rest : Text) :
    CutsInside (a :: b :: rest) ↔ cutsNext (a :: b :: rest) = true ∨ pairTaken a b = true ∧ CutsInside rest := by
  constructor
  · rintro ⟨taken, left, hsplit, htaken, hcut⟩
    match taken, htaken with
    | [], _ =>
      rw [hsplit]
      exact .inl hcut
    | x :: y :: taken, htaken =>
      cases hsplit
      rw [pairsTaken, Bool.and_eq_true] at htaken
      exact .inr ⟨htaken.1, taken, left, rfl, htaken.2, hcut⟩
  · rintro (hcut | ⟨hpair, taken, left, rfl, htaken, hcut⟩)
    · exact ⟨[], _, rfl, rfl, hcut⟩
    · exact ⟨a :: b :: taken, left, rfl, by rw [pairsTaken, hpair, htaken]; rfl, hcut⟩

theorem decodePairs_panics : ∀ {hex : Text}, utf8Len hex % 2 = 0 → (decodePairs hex = .error .panics ↔ CutsInside hex)
  | [], _ => by
    rw [cutsInside_short (by decide)]
    simp [decodePairs, cutsNext]
  | [a], hlen => by
    have hsize : a.utf8Size = 2 ∨ a.utf8Size = 4 := by
      have hpos := a.utf8Size_pos
      have hle := a.utf8Size_le_four
      rw [utf8Len_cons] at hlen
      simp only [show utf8Len [] = 0 from rfl] at hlen
      omega
    rw [cutsInside_short (by simp), decodePairs, cutsNext]
    rcases hsize with hsize | hsize <;> simp [hsize]
  | a :: b :: rest, hlen => by
    have hpos := a.utf8Size_pos
    have hposb := b.utf8Size_pos
    rw [cutsInside_cons, decodePairs, cutsNext, decide_eq_true_eq]
    by_cases htwo : a.utf8Size = 2
    · have hnot : pairTaken a b ≠ true := fun h => by
        have := (utf8Size_of_pairTaken h).1
        omega
      simp [htwo, hnot]
    · by_cases hone : a.utf8Size = 1 ∧ b.utf8Size = 1
      · have hrest : utf8Len rest % 2 = 0 := by
          rw [utf8Len_cons, utf8Len_cons] at hlen
          omega
        have ih := decodePairs_panics hrest
        rw [if_neg htwo, if_neg (by omega), ← isSome_fromStrRadix, ← ih]
        cases fromStrRadix 8 16 [a, b] with
        | none => simp [hone.1, hone.2]
        | some x => cases decodePairs rest <;> simp [hone.1, hone.2, Except.map]
      · rw [if_neg htwo, if_pos (by omega)]
        refine ⟨fun _ => .inl ?_, fun _ => rfl⟩
        omega

/-! ## The decoders -/

def behind (lead s : Text) : Text := (stripLeading lead s).getD s

/-- All pairs of the text are taken, and not all of it are digits. -/
def Signed (hex : Text) : Prop := hex.length = 64 ∧ pairsTaken hex = true ∧ '+' ∈ hex

theorem toDigit_of_readHex : ∀ {hex : Text} {bytes : KeyBytes}, readHex hex = some bytes →
    ∀ c ∈ hex, (toDigit 16 c).isSome = true
  | [], _, _, c, hc => by cases hc
  | [_], _, h, _, _ => by cases h
  | a :: b :: rest, bytes, h, c, hc => by
    rw [readHex] at h
    obtain ⟨x, hx, hrest⟩ := bind_eq_some_iff.1 h
    obtain ⟨xs, hxs, -⟩ := map_eq_some_iff.1 hrest
    obtain ⟨hi, hhi, hlo⟩ := bind_eq_some_iff.1 hx
    obtain ⟨lo, hlo, -⟩ := map_eq_some_iff.1 hlo
    rcases mem_cons.1 hc with rfl | hc
    · rw [hhi]
      rfl
    · rcases mem_cons.1 hc with rfl | hc
      · rw [hlo]
        rfl
      · exact toDigit_of_readHex hxs c hc

variable {bytes : KeyBytes}

theorem spells_iff {lead s : Text} (hlead : ':' ∈ lead) :
    Spells lead s bytes ↔ (behind lead s).length = 64 ∧ readHex (behind lead s) = some bytes := by
  unfold behind
  constructor
  · rintro ⟨hex, rfl | rfl, hlen, hread⟩
    · rw [stripLeading_append, getD_some]
      exact ⟨hlen, hread⟩
    · cases hstrip : stripLeading lead s with
      | none => exact ⟨hlen, hread⟩
      | some rest =>
        have hcolon : ':' ∈ s := by
          rw [eq_append_of_stripLeading hstrip]
          exact mem_append_left rest hlead
        exact absurd (toDigit_of_readHex hread ':' hcolon) (by decide)
  · cases hstrip : stripLeading lead s with
    | none =>
      rintro ⟨hlen, hread⟩
      exact ⟨s, .inr rfl, hlen, hread⟩
    | some rest =>
      rintro ⟨hlen, hread⟩
      exact ⟨rest, .inl (eq_append_of_stripLeading hstrip), hlen, hread⟩

theorem keyOfHex_eq {hex : Text} (h : utf8Len hex = 64) : (keyOfHex hex).map MachinePublic.bytes = decodePairs hex := by
  have hdecode : decodeHex hex 32 = decodePairs hex := by
    unfold decodeHex
    rw [if_neg (not_not_intro h)]
  unfold keyOfHex
  split
  next e he =>
    rw [← hdecode, he]
    rfl
  next out hout => exact (hdecode.symm.trans hout).symm

def decodeKey (reason lead s : Text) : Except KeyFault MachinePublic :=
  if utf8Len (behind lead (trim s)) ≠ 64 then .error (.badServerKey reason) else keyOfHex (behind lead (trim s))

section

variable {reason lead s : Text}

theorem decodeKey_eq_ok (hs : Tight s) {key : MachinePublic} :
    decodeKey reason lead s = .ok key ↔ hexPairs (behind lead s) = some key.bytes := by
  unfold decodeKey
  rw [trim_of_tight hs]
  by_cases hlen : utf8Len (behind lead s) = 64
  · rw [if_neg (not_not_intro hlen), ← decodePairs_eq_ok, ← keyOfHex_eq hlen]
    cases keyOfHex (behind lead s) with
    | error e => simp [Except.map]
    | ok key' =>
      obtain ⟨bytes, size⟩ := key
      obtain ⟨bytes', size'⟩ := key'
      simp [Except.map]
  · rw [if_pos hlen]
    refine ⟨nofun, fun h => absurd ?_ hlen⟩
    rw [(hexPairs_length h).2, key.size]

theorem decodeKey_panics (hs : Tight s) :
    decodeKey reason lead s = .error .panics ↔ utf8Len (behind lead s) = 64 ∧ CutsInside (behind lead s) := by
  unfold decodeKey
  rw [trim_of_tight hs]
  by_cases hlen : utf8Len (behind lead s) = 64
  · rw [if_neg (not_not_intro hlen), ← decodePairs_panics (by rw [hlen]), ← keyOfHex_eq hlen]
    cases keyOfHex (behind lead s) <;> simp [Except.map, hlen]
  · rw [if_pos hlen]
    simp [hlen]

variable {bytes : KeyBytes}

theorem hexPairs_spells (hlead : ':' ∈ lead) (hsigned : ¬ Signed (behind lead s))
    (hsize : bytes.length = 32) : hexPairs (behind lead s) = some bytes ↔ Spells lead s bytes := by
  rw [spells_iff hlead, readHex_eq_some]
  constructor
  · intro h
    have hlen : (behind lead s).length = 64 := by rw [(hexPairs_length h).1, hsize]
    have htaken : pairsTaken (behind lead s) = true := by rw [← isSome_hexPairs, h]; rfl
    exact ⟨hlen, h, fun hplus => hsigned ⟨hlen, htaken, hplus⟩⟩
  · exact fun h => h.2.1

theorem hexPairs_of_spells (hlead : ':' ∈ lead) (h : Spells lead s bytes) :
    hexPairs (behind lead s) = some bytes ∧ bytes.length = 32 := by
  obtain ⟨hlen, hread⟩ := (spells_iff hlead).1 h
  have hbytes := (readHex_eq_some.1 hread).1
  have hcount := (hexPairs_length hbytes).1
  exact ⟨hbytes, by omega⟩

theorem Signed.taken (hlead : ':' ∈ lead) (h : Signed (behind lead s)) :
    ∃ bytes, hexPairs (behind lead s) = some bytes ∧ bytes.length = 32 ∧ ∀ bytes', ¬ Spells lead s bytes' := by
  obtain ⟨hlen, htaken, hplus⟩ := h
  rw [← isSome_hexPairs] at htaken
  obtain ⟨bytes, hbytes⟩ := isSome_iff_exists.1 htaken
  refine ⟨bytes, hbytes, ?_, fun bytes' hspells => ?_⟩
  · have hcount := (hexPairs_length hbytes).1
    omega
  · exact (readHex_eq_some.1 ((spells_iff hlead).1 hspells).2).2 hplus

theorem decodeKey_right_iff (hlead : ':' ∈ lead) (hs : Tight s) :
    (decodeKey reason lead s ≠ .error .panics ∧ ∀ key, decodeKey reason lead s = .ok key ↔ Spells lead s key.bytes) ↔
      ¬ (utf8Len (behind lead s) = 64 ∧ CutsInside (behind lead s)) ∧ ¬ Signed (behind lead s) := by
  rw [← decodeKey_panics hs]
  refine and_congr Iff.rfl ⟨fun h hsigned => ?_, fun hsigned key => ?_⟩
  · obtain ⟨bytes, hbytes, hsize, hnone⟩ := hsigned.taken hlead
    exact hnone bytes ((h ⟨bytes, hsize⟩).1 ((decodeKey_eq_ok hs).2 hbytes))
  · rw [decodeKey_eq_ok hs]
    exact hexPairs_spells hlead hsigned key.size

theorem parseNodekeyWithPrefix_eq_some {key : NodeKey} : parseNodekeyWithPrefix s lead = some key ↔
    ∃ bytes, hexPairs (behind lead s) = some bytes ∧ bytes.length = 32 ∧ key = keyOfBytes bytes := by
  show decodeHex32 (behind lead s) = some key ↔ _
  unfold decodeHex32
  split
  next hlen =>
    refine ⟨nofun, fun ⟨bytes, hbytes, hsize, _⟩ => absurd ?_ hlen⟩
    rw [(hexPairs_length hbytes).2, hsize]
  next hlen =>
    rw [map_eq_some_iff]
    constructor
    · rintro ⟨bytes, hbytes, rfl⟩
      have hcount := (hexPairs_length hbytes).2
      exact ⟨bytes, hbytes, by omega, rfl⟩
    · rintro ⟨bytes, hbytes, -, rfl⟩
      exact ⟨bytes, hbytes, rfl⟩

theorem parseNodekey_right_iff (hlead : ':' ∈ lead) :
    (∀ key, parseNodekeyWithPrefix s lead = some key ↔ ∃ bytes, Spells lead s bytes ∧ key = keyOfBytes bytes) ↔
      ¬ Signed (behind lead s) := by
  constructor
  · intro h hsigned
    obtain ⟨bytes, hbytes, hsize, hnone⟩ := hsigned.taken hlead
    obtain ⟨bytes', hspells, -⟩ := (h _).1 (parseNodekeyWithPrefix_eq_some.2 ⟨bytes, hbytes, hsize, rfl⟩)
    exact hnone bytes' hspells
  · intro hsigned key
    rw [parseNodekeyWithPrefix_eq_some]
    constructor
    · rintro ⟨bytes, hbytes, hsize, rfl⟩
      exact ⟨bytes, (hexPairs_spells hlead hsigned hsize).1 hbytes, rfl⟩
    · rintro ⟨bytes, hspells, rfl⟩
      obtain ⟨hbytes, hsize⟩ := hexPairs_of_spells hlead hspells
      exact ⟨bytes, hbytes, hsize, rfl⟩

theorem spells_encodeHex (hplain : lead.any isWhitespace = false) (hsize : bytes.length = 32) :
    Tight (lead ++ encodeHex bytes) ∧ Spells lead (lead ++ encodeHex bytes) bytes := by
  have hall : ∀ c ∈ lead ++ encodeHex bytes, isWhitespace c = false := by
    intro c hc
    rcases mem_append.1 hc with hc | hc
    · exact Bool.eq_false_iff.2 (any_eq_false.1 hplain c hc)
    · exact (digit_plain (encodeHex_digits hc)).2
  refine ⟨⟨fun c hc => hall c (mem_of_mem_head? hc), fun c hc => hall c (mem_of_getLast? hc)⟩,
    encodeHex bytes, .inl rfl, by rw [length_encodeHex, hsize], readHex_eq_some.2 ⟨?_, fun hplus => ?_⟩⟩
  · exact decodePairs_eq_ok.1 (decodePairs_encodeHex bytes)
  · exact absurd (encodeHex_digits hplus) (by decide)

end

theorem fromMkeyStr_eq (s : Text) :
    fromMkeyStr s = decodeKey "expected 64 hex chars after mkey: prefix".toList mkeyLead s := rfl

def NodePublic.ofKey (key : MachinePublic) : NodePublic := ⟨key.bytes, key.size⟩

theorem fromNodekeyStr_eq (s : Text) : fromNodekeyStr s =
    (decodeKey "expected 64 hex chars in nodekey".toList nodekeyLead s).map NodePublic.ofKey := by
  unfold fromNodekeyStr decodeKey
  show (if utf8Len (behind nodekeyLead (trim s)) ≠ 64 then _ else _) = _
  split <;> rfl

theorem fromNodekeyStr_eq_ok {s : Text} (hsize : bytes.length = 32) :
    fromNodekeyStr s = .ok ⟨bytes, hsize⟩ ↔
      decodeKey "expected 64 hex chars in nodekey".toList nodekeyLead s = .ok ⟨bytes, hsize⟩ := by
  rw [fromNodekeyStr_eq]
  cases decodeKey "expected 64 hex chars in nodekey".toList nodekeyLead s with
  | error e => simp [Except.map]
  | ok key =>
    obtain ⟨bytes', size'⟩ := key
    simp [Except.map, NodePublic.ofKey]

theorem fromNodekeyStr_panics {s : Text} : fromNodekeyStr s = .error .panics ↔
    decodeKey "expected 64 hex chars in nodekey".toList nodekeyLead s = .error .panics := by
  rw [fromNodekeyStr_eq]
  cases decodeKey "expected 64 hex chars in nodekey".toList nodekeyLead s <;> simp [Except.map]

theorem read_of_spells {s : Text} (hs : Tight s) (hsize : bytes.length = 32) :
    (Spells mkeyLead s bytes → fromMkeyStr s = .ok ⟨bytes, hsize⟩) ∧
    (Spells nodekeyLead s bytes → fromNodekeyStr s = .ok ⟨bytes, hsize⟩ ∧ parseNodekey s = some (keyOfBytes bytes)) ∧
    (Spells discokeyLead s bytes → parseNodekeyWithPrefix s discokeyLead = some (keyOfBytes bytes)) := by
  refine ⟨fun h => ?_, fun h => ⟨?_, ?_⟩, fun h => ?_⟩
  · rw [fromMkeyStr_eq]
    exact (decodeKey_eq_ok hs).2 (hexPairs_of_spells (by decide) h).1
  · rw [fromNodekeyStr_eq_ok hsize]
    exact (decodeKey_eq_ok hs).2 (hexPairs_of_spells (by decide) h).1
  · exact parseNodekeyWithPrefix_eq_some.2 ⟨bytes, (hexPairs_of_spells (by decide) h).1, hsize, rfl⟩
  · exact parseNodekeyWithPrefix_eq_some.2 ⟨bytes, (hexPairs_of_spells (by decide) h).1, hsize, rfl⟩

theorem key_roundtrip (bytes : KeyBytes) (hsize : bytes.length = 32) :
    fromMkeyStr (MachinePublic.toMkeyString ⟨bytes, hsize⟩) = .ok ⟨bytes, hsize⟩ ∧
    fromNodekeyStr (NodePublic.toNodekeyString ⟨bytes, hsize⟩) = .ok ⟨bytes, hsize⟩ ∧
    parseNodekey (NodePublic.toNodekeyString ⟨bytes, hsize⟩) = some (keyOfBytes bytes) ∧
    parseNodekeyWithPrefix (DiscoPublic.toDiscokeyString ⟨bytes, hsize⟩) discokeyLead = some (keyOfBytes bytes) := by
  have hmkey : mkeyLead.any isWhitespace = false := by decide
  have hnodekey : nodekeyLead.any isWhitespace = false := by decide
  have hdiscokey : discokeyLead.any isWhitespace = false := by decide
  obtain ⟨htight, hspells⟩ := spells_encodeHex hnodekey hsize
  have hnode := (read_of_spells htight hsize).2.1 hspells
  refine ⟨?_, hnode.1, hnode.2, ?_⟩
  · obtain ⟨htight, hspells⟩ := spells_encodeHex hmkey hsize
    exact (read_of_spells htight hsize).1 hspells
  · obtain ⟨htight, hspells⟩ := spells_encodeHex hdiscokey hsize
    exact (read_of_spells htight hsize).2.2 hspells

theorem fromNodekeyStr_right_iff {s : Text} (hs : Tight s) :
    (fromNodekeyStr s ≠ .error .panics ∧ ∀ key, fromNodekeyStr s = .ok key ↔ Spells nodekeyLead s key.bytes) ↔
      ¬ (utf8Len (behind nodekeyLead s) = 64 ∧ CutsInside (behind nodekeyLead s)) ∧
        ¬ Signed (behind nodekeyLead s) := by
  have hright := @decodeKey_right_iff "expected 64 hex chars in nodekey".toList nodekeyLead s (by decide) hs
  rw [← hright, ne_eq, fromNodekeyStr_panics]
  refine and_congr Iff.rfl ⟨fun h key => ?_, fun h key => ?_⟩
  · rw [← fromNodekeyStr_eq_ok key.size]
    exact h ⟨key.bytes, key.size⟩
  · rw [fromNodekeyStr_eq_ok key.size]
    exact h ⟨key.bytes, key.size⟩

/-- **When the key decoders do what they should.** Every key reads back from its text, and every decoder reads what a
text spells. On a text with no space around it, a decoder of `types.rs` panics nowhere and takes exactly the texts that
spell a key if and only if no cut behind pairs that were taken falls inside a character and the text is not a signed
one; the netmap's decoder if and only if it is not a signed one. -/
theorem key_text_codec_iff (s : Text) (hs : Tight s) (bytes : KeyBytes) (hsize : bytes.length = 32) :
    (fromMkeyStr (MachinePublic.toMkeyString ⟨bytes, hsize⟩) = .ok ⟨bytes, hsize⟩ ∧
      fromNodekeyStr (NodePublic.toNodekeyString ⟨bytes, hsize⟩) = .ok ⟨bytes, hsize⟩ ∧
      parseNodekey (NodePublic.toNodekeyString ⟨bytes, hsize⟩) = some (keyOfBytes bytes) ∧
      parseNodekeyWithPrefix (DiscoPublic.toDiscokeyString ⟨bytes, hsize⟩) discokeyLead = some (keyOfBytes bytes)) ∧
    ((Spells mkeyLead s bytes → fromMkeyStr s = .ok ⟨bytes, hsize⟩) ∧
      (Spells nodekeyLead s bytes → fromNodekeyStr s = .ok ⟨bytes, hsize⟩ ∧ parseNodekey s = some (keyOfBytes bytes)) ∧
      (Spells discokeyLead s bytes → parseNodekeyWithPrefix s discokeyLead = some (keyOfBytes bytes))) ∧
    ((fromMkeyStr s ≠ .error .panics ∧ ∀ key, fromMkeyStr s = .ok key ↔ Spells mkeyLead s key.bytes) ↔
      ¬ (utf8Len (behind mkeyLead s) = 64 ∧ CutsInside (behind mkeyLead s)) ∧ ¬ Signed (behind mkeyLead s)) ∧
    ((fromNodekeyStr s ≠ .error .panics ∧ ∀ key, fromNodekeyStr s = .ok key ↔ Spells nodekeyLead s key.bytes) ↔
      ¬ (utf8Len (behind nodekeyLead s) = 64 ∧ CutsInside (behind nodekeyLead s)) ∧
        ¬ Signed (behind nodekeyLead s)) ∧
    ∀ lead ∈ [nodekeyLead, discokeyLead], ((∀ key, parseNodekeyWithPrefix s lead = some key ↔
      ∃ bytes, Spells lead s bytes ∧ key = keyOfBytes bytes) ↔ ¬ Signed (behind lead s)) := by
  refine ⟨key_roundtrip bytes hsize, read_of_spells hs hsize, ?_, fromNodekeyStr_right_iff hs, fun lead hlead => ?_⟩
  · rw [fromMkeyStr_eq]
    exact decodeKey_right_iff (by decide) hs
  · refine parseNodekey_right_iff ?_
    rcases mem_cons.1 hlead with rfl | hlead
    · decide
    · rw [mem_singleton.1 hlead]
      decide

theorem key_text_codec_digits :
    Tight (List.replicate 64 'a') ∧
    fromMkeyStr (List.replicate 64 'a') = .ok ⟨List.replicate 32 0xAA, rfl⟩ ∧
    fromNodekeyStr (List.replicate 64 'a') = .ok ⟨List.replicate 32 0xAA, rfl⟩ := by
  have hspells : ∀ lead, Spells lead (List.replicate 64 'a') (List.replicate 32 0xAA) :=
    fun lead => ⟨_, .inr rfl, rfl, by decide⟩
  have htight : Tight (List.replicate 64 'a') := by
    refine ⟨fun c hc => ?_, fun c hc => ?_⟩
    · have : c = 'a' := eq_of_mem_replicate (mem_of_mem_head? hc)
      rw [this]
      decide
    · have : c = 'a' := eq_of_mem_replicate (mem_of_getLast? hc)
      rw [this]
      decide
  have hread := (key_text_codec_iff _ htight (List.replicate 32 0xAA) rfl).2.1
  exact ⟨htight, hread.1 (hspells _), (hread.2.1 (hspells _)).1⟩

/-- **A sign is taken for a digit, and a character in the way is a panic.** The first text is `+f` 32 times over: every
decoder takes it, as the key of 32 bytes 0x0f. The second is U+20AC and 61 digits: both decoders of `types.rs` panic,
where the netmap's says no. -/
theorem signed_key_taken :
    let pairs := (List.replicate 32 "+f".toList).flatten
    let cut := '\u20ac' :: List.replicate 61 'a'
    fromMkeyStr (mkeyLead ++ pairs) = .ok ⟨List.replicate 32 0x0F, rfl⟩ ∧
    fromNodekeyStr (nodekeyLead ++ pairs) = .ok ⟨List.replicate 32 0x0F, rfl⟩ ∧
    parseNodekey (nodekeyLead ++ pairs) = some (keyOfBytes (List.replicate 32 0x0F)) ∧
    parseNodekeyWithPrefix (discokeyLead ++ pairs) discokeyLead = some (keyOfBytes (List.replicate 32 0x0F)) ∧
    readHex pairs = none ∧
    fromMkeyStr cut = .error .panics ∧ fromNodekeyStr cut = .error .panics ∧ parseNodekey cut = none := by
  decide +kernel

end TailscaleVita.Ctl
