import TailscaleVita.StdText
/-!
# TextLossy — bytes read as text, whatever they are (`String::from_utf8_lossy`)

The bytes are cut into sequences: a character, or a broken beginning of one, which is read as one replacement
character. A text reads back from its bytes, and an ASCII byte is read as itself wherever it stands.
-/
namespace TailscaleVita

open List

def followers (a : BitVec 8) (rest : Bytes) : Nat :=
  if a ≤ 0x7F then 0
  else if 0xC2 ≤ a ∧ a ≤ 0xDF then min (rest.takeWhile continuation).length 1
  else if 0xE0 ≤ a ∧ a ≤ 0xF4 then
    match rest with
    | [] => 0
    | b :: rest =>
      if secondByte a b then 1 + min (rest.takeWhile continuation).length (if a ≤ 0xEF then 1 else 2) else 0
  else 0

def readSequence (bs : Bytes) : Text := (fromUtf8 bs).getD ['\uFFFD']

def lossyFrom : (fuel : Nat) → Bytes → Text
  | 0, _ => []
  | _ + 1, [] => []
  | fuel + 1, a :: rest =>
    readSequence (a :: rest.take (followers a rest)) ++ lossyFrom fuel (rest.drop (followers a rest))

def fromUtf8Lossy (bs : Bytes) : Text := lossyFrom bs.length bs

theorem lossyFrom_fuel : ∀ {n m : Nat} {bs : Bytes}, bs.length ≤ n → bs.length ≤ m →
    lossyFrom n bs = lossyFrom m bs
  | 0, 0, [], _, _ => rfl
  | 0, _ + 1, [], _, _ => rfl
  | _ + 1, 0, [], _, _ => rfl
  | _ + 1, _ + 1, [], _, _ => rfl
  | n + 1, m + 1, a :: rest, hn, hm => by
    have hshort : (rest.drop (followers a rest)).length ≤ rest.length := by
      rw [length_drop]
      omega
    simp only [length_cons] at hn hm
    rw [lossyFrom, lossyFrom, lossyFrom_fuel (n := n) (m := m) (by omega) (by omega)]

theorem fromUtf8Lossy_cons (a : BitVec 8) (rest : Bytes) : fromUtf8Lossy (a :: rest) =
    readSequence (a :: rest.take (followers a rest)) ++ fromUtf8Lossy (rest.drop (followers a rest)) := by
  unfold fromUtf8Lossy
  rw [length_cons, lossyFrom, lossyFrom_fuel (n := rest.length) (by rw [length_drop]; omega) (Nat.le_refl _)]

theorem followers_charBytes {a : BitVec 8} {q : Bytes} (h : CharBytes (a :: q)) (rest : Bytes) :
    followers a (q ++ rest) = q.length := by
  unfold followers
  simp only [BitVec.le_def, BitVec.reduceToNat]
  cases h with
  | one ha => rw [if_pos ha, length_nil]
  | two ha hb =>
    rw [if_neg (by omega), if_pos ha, cons_append, nil_append, takeWhile_cons_of_pos hb]
    simp
  | three ha hb hc =>
    rw [if_neg (by omega), if_neg (by omega), if_pos (by omega)]
    simp only [cons_append, nil_append]
    rw [if_pos hb, if_pos (by omega), takeWhile_cons_of_pos hc]
    simp
  | four ha hb hc hd =>
    rw [if_neg (by omega), if_neg (by omega), if_pos (by omega)]
    simp only [cons_append, nil_append]
    rw [if_pos hb, if_neg (by omega), takeWhile_cons_of_pos hc, takeWhile_cons_of_pos hd]
    simp

theorem fromUtf8Lossy_char (c : Char) (rest : Bytes) :
    fromUtf8Lossy (encodeChar c ++ rest) = c :: fromUtf8Lossy rest := by
  have hbytes := charBytes_encodeChar c
  have hread : readSequence (encodeChar c) = [c] := by
    have htext := fromUtf8_utf8 [c]
    rw [utf8_cons] at htext
    unfold readSequence
    rw [show encodeChar c = encodeChar c ++ utf8 [] from (append_nil _).symm, htext]
    rfl
  generalize encodeChar c = q at hbytes hread ⊢
  cases q with
  | nil => cases hbytes
  | cons a q =>
    rw [cons_append, fromUtf8Lossy_cons, followers_charBytes hbytes, take_left, drop_left, hread]
    rfl

theorem fromUtf8Lossy_utf8 : ∀ s : Text, fromUtf8Lossy (utf8 s) = s
  | [] => rfl
  | c :: s => by rw [utf8_cons, fromUtf8Lossy_char, fromUtf8Lossy_utf8 s]

variable {b : BitVec 8}

theorem readSequence_ascii (hb : b.toNat < 128) : readSequence [b] = [Char.ofNat b.toNat] := by
  have htext := @utf8_asciiText [b] (fun b' hb' => by rw [mem_singleton.1 hb']; exact hb)
  unfold readSequence
  rw [← htext, fromUtf8_utf8]
  rfl

theorem followers_append_ascii (hb : b.toNat < 128) (a : BitVec 8) (front rest : Bytes) :
    followers a (front ++ b :: rest) = followers a front ∧ followers a front ≤ front.length := by
  have hcont : continuation b = false := by
    rw [← Bool.not_eq_true, continuation_iff]
    omega
  have hsecond : secondByte a b = false := by
    rw [← Bool.not_eq_true, secondByte_iff]
    omega
  have hrun : ∀ l : Bytes, (l ++ b :: rest).takeWhile continuation = l.takeWhile continuation := fun l => by
    rw [takeWhile_append, takeWhile_cons_of_neg (by rw [hcont]; exact Bool.false_ne_true), append_nil]
    split
    next hall => exact ((List.takeWhile_prefix continuation).eq_of_length hall).symm
    · rfl
  have hshort : ∀ l : Bytes, (l.takeWhile continuation).length ≤ l.length :=
    fun l => (List.takeWhile_prefix continuation).length_le
  unfold followers
  cases front with
  | nil =>
    rw [nil_append]
    simp only [hsecond, Bool.false_eq_true, if_false, takeWhile_nil, length_nil]
    rw [takeWhile_cons_of_neg (by rw [hcont]; exact Bool.false_ne_true)]
    simp
  | cons x front =>
    rw [cons_append]
    have hx := hrun (x :: front)
    rw [cons_append] at hx
    simp only [hrun, hx, true_and]
    have hlen := hshort front
    have hlen' := hshort (x :: front)
    rw [length_cons] at hlen' ⊢
    split_ifs <;> omega

theorem fromUtf8Lossy_append_ascii (hb : b.toNat < 128) (rest front : Bytes) :
    fromUtf8Lossy (front ++ b :: rest) = fromUtf8Lossy front ++ Char.ofNat b.toNat :: fromUtf8Lossy rest := by
  induction hlen : front.length using Nat.strong_induction_on generalizing front with
  | _ n ih =>
    cases front with
    | nil =>
      have hnone : followers b rest = 0 := if_pos (by rw [BitVec.le_def]; exact Nat.le_of_lt_succ hb)
      rw [nil_append, fromUtf8Lossy_cons, hnone, take_zero, drop_zero, readSequence_ascii hb]
      rfl
    | cons a front =>
      obtain ⟨hsame, hle⟩ := followers_append_ascii hb a front rest
      rw [cons_append, fromUtf8Lossy_cons, fromUtf8Lossy_cons, hsame, take_append_of_le_length hle,
        drop_append_of_le_length hle, ih (front.drop (followers a front)).length _ _ rfl, append_assoc]
      rw [← hlen, length_cons, length_drop]
      omega

theorem readSequence_ne_nil (a : BitVec 8) (bs : Bytes) : readSequence (a :: bs) ≠ [] := by
  unfold readSequence
  cases hs : fromUtf8 (a :: bs) with
  | none => exact cons_ne_nil _ _
  | some s =>
    rintro rfl
    cases utf8_of_fromUtf8 hs

theorem fromUtf8Lossy_ne_nil {bs : Bytes} (h : bs ≠ []) : fromUtf8Lossy bs ≠ [] := by
  obtain ⟨a, rest, rfl⟩ := exists_cons_of_ne_nil h
  rw [fromUtf8Lossy_cons]
  exact append_ne_nil_of_left_ne_nil (readSequence_ne_nil _ _) _

theorem getLast?_of_fromUtf8Lossy {c : Char} (hc : c.toNat < 128) (bs : Bytes)
    (h : (fromUtf8Lossy bs).getLast? = some c) : bs.getLast? = some (BitVec.ofNat 8 c.toNat) := by
  induction hlen : bs.length using Nat.strong_induction_on generalizing bs with
  | _ n ih =>
    cases bs with
    | nil => cases h
    | cons a rest =>
      rw [fromUtf8Lossy_cons] at h
      by_cases hnil : rest.drop (followers a rest) = []
      · -- one sequence, which is then a text
        rw [hnil, take_of_length_le (drop_eq_nil_iff.1 hnil)] at h
        change (readSequence (a :: rest) ++ []).getLast? = _ at h
        rw [append_nil] at h
        unfold readSequence at h
        cases hs : fromUtf8 (a :: rest) with
        | none =>
          rw [hs] at h
          cases h
          exact absurd hc (by decide)
        | some s =>
          rw [hs, Option.getD_some] at h
          obtain ⟨front, rfl⟩ := getLast?_eq_some_iff.1 h
          rw [← utf8_of_fromUtf8 hs, utf8_append, utf8_ascii hc, getLast?_concat]
      · have hrest : (rest.drop (followers a rest)).getLast? = (a :: rest).getLast? := by
          rw [← getLast?_append_of_ne_nil (a :: rest.take (followers a rest)) hnil, cons_append, take_append_drop]
        rw [getLast?_append_of_ne_nil _ (fromUtf8Lossy_ne_nil hnil)] at h
        rw [← hrest]
        refine ih _ ?_ _ h rfl
        rw [← hlen, length_cons, length_drop]
        omega

end TailscaleVita
