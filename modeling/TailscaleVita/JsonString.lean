import TailscaleVita.StdText
/-!
# JsonString — the string literals of RFC 8259

A literal is a list of characters, each with what is written for it and the UTF-16 units it stands for, so that a pair
of `\u` escapes is one character of the value. A literal is read in one way, wherever the text goes on after it.
-/
namespace TailscaleVita.Json

open List

def utf16Char (c : Char) : List Nat :=
  if c.toNat < 0x10000 then [c.toNat]
  else [0xD800 + (c.toNat - 0x10000) / 0x400, 0xDC00 + (c.toNat - 0x10000) % 0x400]

def utf16 (s : Text) : List Nat := s.flatMap utf16Char

theorem utf16Char_append {c c' : Char} {xs ys : List Nat} (h : utf16Char c ++ xs = utf16Char c' ++ ys) :
    c = c' ∧ xs = ys := by
  have hsame : c.toNat = c'.toNat → c = c' := fun h => Char.ext (UInt32.toNat_inj.1 h)
  have hc : c.toNat < 0xD800 ∨ 0xDFFF < c.toNat ∧ c.toNat < 0x110000 := c.valid
  have hc' : c'.toNat < 0xD800 ∨ 0xDFFF < c'.toNat ∧ c'.toNat < 0x110000 := c'.valid
  unfold utf16Char at h
  split at h <;> split at h <;>
    simp at h
  · exact ⟨hsame h.1, h.2⟩
  · omega
  · omega
  · exact ⟨hsame (by omega), h.2.2⟩

theorem utf16_injective : Function.Injective utf16
  | [], [], _ => rfl
  | [], c :: s, h => by
    simp only [utf16, flatMap_nil, flatMap_cons, utf16Char] at h
    split at h <;> cases h
  | c :: s, [], h => by
    simp only [utf16, flatMap_nil, flatMap_cons, utf16Char] at h
    split at h <;> cases h
  | c :: s, c' :: s', h => by
    obtain ⟨rfl, hrest⟩ := utf16Char_append h
    rw [utf16_injective hrest]

inductive ShortEscape where
  | quote | backslash | slash | backspace | formFeed | lineFeed | carriageReturn | tab

namespace ShortEscape

def letter : ShortEscape → Char
  | quote => '"'
  | backslash => '\\'
  | slash => '/'
  | backspace => 'b'
  | formFeed => 'f'
  | lineFeed => 'n'
  | carriageReturn => 'r'
  | tab => 't'

def unit : ShortEscape → Nat
  | quote => 0x22
  | backslash => 0x5C
  | slash => 0x2F
  | backspace => 0x08
  | formFeed => 0x0C
  | lineFeed => 0x0A
  | carriageReturn => 0x0D
  | tab => 0x09

theorem letter_injective : Function.Injective letter := by
  intro e e' h
  cases e <;> cases e' <;> first | rfl | exact absurd h (by decide)

theorem letter_ne_u (e : ShortEscape) : e.letter ≠ 'u' := by cases e <;> decide

end ShortEscape

def hexValue (c : Char) : Option Nat :=
  if '0' ≤ c ∧ c ≤ '9' then some (c.toNat - '0'.toNat)
  else if 'a' ≤ c ∧ c ≤ 'f' then some (c.toNat - 'a'.toNat + 10)
  else if 'A' ≤ c ∧ c ≤ 'F' then some (c.toNat - 'A'.toNat + 10)
  else none

structure HexDigit where
  char : Char
  value : Nat
  isHex : hexValue char = some value

inductive LiteralChar where
  | unescaped (c : Char) (h : 0x20 ≤ c.toNat ∧ c ≠ '"' ∧ c ≠ '\\')
  | short (e : ShortEscape)
  | unicode (d₁ d₂ d₃ d₄ : HexDigit)

namespace LiteralChar

def text : LiteralChar → Text
  | unescaped c _ => [c]
  | short e => ['\\', e.letter]
  | unicode d₁ d₂ d₃ d₄ => ['\\', 'u', d₁.char, d₂.char, d₃.char, d₄.char]

def units : LiteralChar → List Nat
  | unescaped c _ => utf16Char c
  | short e => [e.unit]
  | unicode d₁ d₂ d₃ d₄ => [((d₁.value * 16 + d₂.value) * 16 + d₃.value) * 16 + d₄.value]

end LiteralChar

def literal (cs : List LiteralChar) : Text := '"' :: (cs.flatMap LiteralChar.text ++ ['"'])

def Decodes (cs : List LiteralChar) (s : Text) : Prop := cs.flatMap LiteralChar.units = utf16 s

theorem HexDigit.char_injective {d d' : HexDigit} (h : d.char = d'.char) : d = d' := by
  obtain ⟨c, v, hv⟩ := d
  obtain ⟨c', v', hv'⟩ := d'
  obtain rfl : c = c' := h
  obtain rfl : v = v' := Option.some.inj (hv.symm.trans hv')
  rfl

namespace LiteralChar

variable {x y : LiteralChar} {r r' : Text}

theorem text_append (h : x.text ++ r = y.text ++ r') : x = y ∧ r = r' := by
  cases x <;> cases y <;> simp only [text, cons_append, nil_append, List.cons.injEq] at h <;>
    grind [ShortEscape.letter_injective, ShortEscape.letter_ne_u, HexDigit.char_injective]

theorem text_append_ne_quote : x.text ++ r ≠ '"' :: r' := by
  cases x <;> simp only [text, cons_append, nil_append, ne_eq, List.cons.injEq] <;> grind

end LiteralChar

theorem chars_append : ∀ {xs ys : List LiteralChar} {r r' : Text},
    xs.flatMap LiteralChar.text ++ '"' :: r = ys.flatMap LiteralChar.text ++ '"' :: r' → xs = ys ∧ r = r'
  | [], [], _, _, h => ⟨rfl, (List.cons.inj h).2⟩
  | [], y :: ys, _, _, h => by
    rw [flatMap_cons, append_assoc] at h
    exact absurd h.symm LiteralChar.text_append_ne_quote
  | x :: xs, [], _, _, h => by
    rw [flatMap_cons, append_assoc] at h
    exact absurd h LiteralChar.text_append_ne_quote
  | x :: xs, y :: ys, _, _, h => by
    simp only [flatMap_cons, append_assoc] at h
    obtain ⟨rfl, hrest⟩ := LiteralChar.text_append h
    obtain ⟨rfl, hr⟩ := chars_append hrest
    exact ⟨rfl, hr⟩

theorem literal_append {xs ys : List LiteralChar} {r r' : Text} (h : literal xs ++ r = literal ys ++ r') :
    xs = ys ∧ r = r' := by
  simp only [literal, cons_append, append_assoc, nil_append, List.cons.injEq, true_and] at h
  exact chars_append h

end TailscaleVita.Json
