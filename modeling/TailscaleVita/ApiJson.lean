import TailscaleVita.JsonString
/-!
# ApiJson — the text of an error (`tailscale-vita/src/localapi/http.rs`)

What `escape_json_string` makes of a text, between quotes, is a literal for that text and no other.
-/
namespace TailscaleVita.Api

open Json

def lowerHex04 (n : Nat) : Text := (Nat.toDigits 16 n).leftpad 4 '0'

def escapeJsonChar (c : Char) : Text :=
  if c = '"' then ['\\', '"']
  else if c = '\\' then ['\\', '\\']
  else if c = '\n' then ['\\', 'n']
  else if c = '\r' then ['\\', 'r']
  else if c = '\t' then ['\\', 't']
  else if c.toNat < 0x20 then ['\\', 'u'] ++ lowerHex04 c.toNat
  else [c]

def escapeJsonString (s : Text) : Text := s.flatMap escapeJsonChar

theorem hexValue_digitChar : ∀ {n : Nat}, n < 16 → hexValue n.digitChar = some n := by decide

theorem lowerHex04_control : ∀ {n : Nat}, n < 0x20 →
    lowerHex04 n = ['0', '0', (n / 16).digitChar, (n % 16).digitChar] := by
  decide

theorem escapeJsonChar_literal (c : Char) : ∃ x : LiteralChar, x.text = escapeJsonChar c ∧ x.units = utf16Char c := by
  unfold escapeJsonChar
  split_ifs with hquote hback hn hr ht hctl
  · exact ⟨.short .quote, rfl, by rw [hquote]; rfl⟩
  · exact ⟨.short .backslash, rfl, by rw [hback]; rfl⟩
  · exact ⟨.short .lineFeed, rfl, by rw [hn]; rfl⟩
  · exact ⟨.short .carriageReturn, rfl, by rw [hr]; rfl⟩
  · exact ⟨.short .tab, rfl, by rw [ht]; rfl⟩
  · refine ⟨.unicode ⟨'0', 0, rfl⟩ ⟨'0', 0, rfl⟩ ⟨_, c.toNat / 16, hexValue_digitChar (by omega)⟩
      ⟨_, c.toNat % 16, hexValue_digitChar (by omega)⟩, by rw [lowerHex04_control hctl]; rfl, ?_⟩
    simp only [LiteralChar.units]
    rw [utf16Char, if_pos (by omega)]
    congr 1
    omega
  · exact ⟨.unescaped c ⟨by omega, hquote, hback⟩, rfl, rfl⟩

theorem escapeJsonString_literal : ∀ s : Text,
    ∃ xs : List LiteralChar, xs.flatMap LiteralChar.text = escapeJsonString s ∧ Decodes xs s
  | [] => ⟨[], rfl, rfl⟩
  | c :: s => by
    obtain ⟨x, htext, hunits⟩ := escapeJsonChar_literal c
    obtain ⟨xs, htexts, hdecodes⟩ := escapeJsonString_literal s
    refine ⟨x :: xs, ?_, ?_⟩
    · rw [List.flatMap_cons, htext, htexts]
      rfl
    · unfold Decodes
      rw [List.flatMap_cons, hunits, hdecodes]
      rfl

/-- **The escaped text between quotes is a literal for the text**: any literal at the front of it, whatever follows,
is that one, and stands for the text and nothing else; so two texts are never escaped alike. -/
theorem escape_json_literal (s : Text) :
    (∃ xs, literal xs = '"' :: (escapeJsonString s ++ ['"']) ∧ Decodes xs s) ∧
    (∀ xs r r', literal xs ++ r = '"' :: (escapeJsonString s ++ ['"']) ++ r' →
      literal xs = '"' :: (escapeJsonString s ++ ['"']) ∧ r = r' ∧ ∀ t, Decodes xs t ↔ t = s) ∧
    ∀ t, escapeJsonString t = escapeJsonString s → t = s := by
  obtain ⟨ys, htext, hdecodes⟩ := escapeJsonString_literal s
  have hwritten : literal ys = '"' :: (escapeJsonString s ++ ['"']) := by rw [literal, htext]
  have honly : ∀ t, Decodes ys t ↔ t = s := fun t =>
    ⟨fun h => utf16_injective (h.symm.trans hdecodes), fun h => h ▸ hdecodes⟩
  refine ⟨⟨ys, hwritten, hdecodes⟩, fun xs r r' h => ?_, fun t h => ?_⟩
  · rw [← hwritten] at h ⊢
    obtain ⟨rfl, hr⟩ := literal_append h
    exact ⟨rfl, hr, honly⟩
  · obtain ⟨zs, hzs, hdecodes'⟩ := escapeJsonString_literal t
    have hsame : zs = ys :=
      (literal_append (by rw [literal, literal, hzs, htext, h] : literal zs ++ [] = literal ys ++ [])).1
    rw [hsame] at hdecodes'
    exact (honly t).1 hdecodes'

end TailscaleVita.Api
