import TailscaleVita.StdText
/-!
# CtlKeys — keys as texts (`ts-control/src/types.rs`)

A machine key is 32 bytes, written `mkey:` and 64 hexadecimal digits. The decoder cuts its text every two bytes, and a
cut inside a character is a panic.
-/
namespace TailscaleVita.Ctl

abbrev KeyBytes := Bytes

structure MachinePublic where
  bytes : KeyBytes
  size : bytes.length = 32
deriving DecidableEq

def hexByte (b : BitVec 8) : Text := [Nat.digitChar (b.toNat / 16), Nat.digitChar (b.toNat % 16)]

def encodeHex (bytes : KeyBytes) : Text := bytes.flatMap hexByte

inductive KeyFault where
  | badServerKey (reason : Text)
  | panics
deriving DecidableEq

def decodePairs : Text → Except KeyFault KeyBytes
  | [] => .ok []
  -- a character of two bytes is cut out whole, and is not a number
  | [a] => if a.utf8Size = 2 then .error (.badServerKey "non-hex character".toList) else .error .panics
  | a :: b :: rest =>
    if a.utf8Size = 2 then .error (.badServerKey "non-hex character".toList)
    else if a.utf8Size ≠ 1 ∨ b.utf8Size ≠ 1 then .error .panics
    else
      match fromStrRadix 8 16 [a, b] with
      | none => .error (.badServerKey "non-hex character".toList)
      | some x => (decodePairs rest).map (x :: ·)

def decodeHex (hex : Text) (n : Nat) : Except KeyFault KeyBytes :=
  if utf8Len hex ≠ n * 2 then .error (.badServerKey "hex length mismatch".toList) else decodePairs hex

theorem decodePairs_size : ∀ {hex : Text} {bytes : KeyBytes}, decodePairs hex = .ok bytes →
    utf8Len hex = bytes.length * 2
  | [], _, h => by
    cases h
    rfl
  | [a], _, h => by
    rw [decodePairs] at h
    split at h <;> cases h
  | a :: b :: rest, bytes, h => by
    rw [decodePairs] at h
    split at h
    · cases h
    · split at h
      · cases h
      next hsizes =>
        rw [not_or, not_not, not_not] at hsizes
        split at h
        · cases h
        · cases hrest : decodePairs rest with
          | error e =>
            rw [hrest] at h
            cases h
          | ok xs =>
            rw [hrest] at h
            cases h
            rw [utf8Len_cons, utf8Len_cons, decodePairs_size hrest, hsizes.1, hsizes.2, List.length_cons]
            omega

theorem decodeHex_size {hex : Text} {n : Nat} {bytes : KeyBytes} (h : decodeHex hex n = .ok bytes) :
    bytes.length = n := by
  unfold decodeHex at h
  split at h
  · cases h
  next hlen =>
    have hsize := decodePairs_size h
    omega

def keyOfHex (hex : Text) : Except KeyFault MachinePublic :=
  match h : decodeHex hex 32 with
  | .error e => .error e
  | .ok out => .ok ⟨out, decodeHex_size h⟩

def mkeyLead : Text := "mkey:".toList

def fromMkeyStr (s : Text) : Except KeyFault MachinePublic :=
  let s := trim s
  let hex := (stripLeading mkeyLead s).getD s
  if utf8Len hex ≠ 64 then .error (.badServerKey "expected 64 hex chars after mkey: prefix".toList)
  else keyOfHex hex

def MachinePublic.toMkeyString (key : MachinePublic) : Text := mkeyLead ++ encodeHex key.bytes

theorem hexByte_spec : ∀ n < 256, (hexByte (BitVec.ofNat 8 n)).all (fun c => c ∈ "0123456789abcdef".toList) = true ∧
    fromStrRadix 8 16 (hexByte (BitVec.ofNat 8 n)) = some (BitVec.ofNat 8 n) := by decide +kernel

variable {c : Char}

theorem hexByte_digits {b : BitVec 8} (h : c ∈ hexByte b) : c ∈ "0123456789abcdef".toList := by
  have hspec := (hexByte_spec b.toNat b.isLt).1
  rw [BitVec.ofNat_toNat, BitVec.setWidth_eq] at hspec
  exact of_decide_eq_true (List.all_eq_true.1 hspec c h)

theorem fromStrRadix_hexByte (b : BitVec 8) : fromStrRadix 8 16 (hexByte b) = some b := by
  have hspec := (hexByte_spec b.toNat b.isLt).2
  rwa [BitVec.ofNat_toNat, BitVec.setWidth_eq] at hspec

theorem encodeHex_digits {bytes : KeyBytes} (h : c ∈ encodeHex bytes) : c ∈ "0123456789abcdef".toList := by
  obtain ⟨b, -, hc⟩ := List.mem_flatMap.1 h
  exact hexByte_digits hc

theorem digit_plain (h : c ∈ "0123456789abcdef".toList) : c.utf8Size = 1 ∧ isWhitespace c = false := by
  have hall : "0123456789abcdef".toList.all (fun c => c.utf8Size = 1 ∧ isWhitespace c = false) = true := by decide
  exact of_decide_eq_true (List.all_eq_true.1 hall c h)

theorem utf8Size_hexByte {b : BitVec 8} (h : c ∈ hexByte b) : c.utf8Size = 1 :=
  (digit_plain (hexByte_digits h)).1

theorem length_encodeHex : ∀ bytes : KeyBytes, (encodeHex bytes).length = bytes.length * 2
  | [] => rfl
  | b :: bytes => by
    have ih := length_encodeHex bytes
    unfold encodeHex at ih ⊢
    rw [List.flatMap_cons, List.length_append, ih, List.length_cons]
    show 2 + _ = _
    omega

theorem decodePairs_encodeHex : ∀ bytes : KeyBytes, decodePairs (encodeHex bytes) = .ok bytes
  | [] => rfl
  | b :: bytes => by
    have hhi : (Nat.digitChar (b.toNat / 16)).utf8Size = 1 := utf8Size_hexByte (b := b) List.mem_cons_self
    have hlo : (Nat.digitChar (b.toNat % 16)).utf8Size = 1 :=
      utf8Size_hexByte (b := b) (List.mem_cons_of_mem _ List.mem_cons_self)
    have hpair : fromStrRadix 8 16 [Nat.digitChar (b.toNat / 16), Nat.digitChar (b.toNat % 16)] = some b :=
      fromStrRadix_hexByte b
    have ih := decodePairs_encodeHex bytes
    unfold encodeHex at ih ⊢
    rw [List.flatMap_cons]
    show decodePairs (Nat.digitChar (b.toNat / 16) :: Nat.digitChar (b.toNat % 16) :: bytes.flatMap hexByte) = _
    rw [decodePairs, if_neg (by rw [hhi]; decide), if_neg (by rw [hhi, hlo]; decide), hpair, ih]
    rfl

theorem utf8Len_encodeHex (bytes : KeyBytes) : utf8Len (encodeHex bytes) = bytes.length * 2 := by
  rw [utf8Len_of_ascii (fun c hc => (digit_plain (encodeHex_digits hc)).1), length_encodeHex]

theorem keyOfHex_encodeHex (key : MachinePublic) : keyOfHex (encodeHex key.bytes) = .ok key := by
  have hdecode : decodeHex (encodeHex key.bytes) 32 = .ok key.bytes := by
    unfold decodeHex
    rw [utf8Len_encodeHex, key.size, if_neg (not_not_intro rfl), decodePairs_encodeHex]
  unfold keyOfHex
  split
  next he =>
    rw [hdecode] at he
    cases he
  next hout =>
    rw [hdecode] at hout
    cases hout
    rfl

theorem fromMkeyStr_toMkeyString (key : MachinePublic) {s : Text} (hs : trim s = key.toMkeyString) :
    fromMkeyStr s = .ok key := by
  have hhex : (stripLeading mkeyLead (trim s)).getD (trim s) = encodeHex key.bytes := by
    rw [hs, MachinePublic.toMkeyString, stripLeading_append]
    rfl
  unfold fromMkeyStr
  dsimp only
  rw [hhex, if_neg (by rw [utf8Len_encodeHex, key.size]; decide), keyOfHex_encodeHex]

theorem fromMkeyStr_too_long {s : Text} (h : 69 < utf8Len (trim s)) : ∃ e, fromMkeyStr s = .error e := by
  have hlen : 64 < utf8Len ((stripLeading mkeyLead (trim s)).getD (trim s)) := by
    cases hr : stripLeading mkeyLead (trim s) with
    | none =>
      show 64 < utf8Len (trim s)
      omega
    | some rest =>
      have hlead : utf8Len mkeyLead = 5 := by decide
      rw [eq_append_of_stripLeading hr, utf8Len_append] at h
      show 64 < utf8Len rest
      omega
  exact ⟨_, if_pos (Nat.ne_of_gt hlen)⟩

end TailscaleVita.Ctl
