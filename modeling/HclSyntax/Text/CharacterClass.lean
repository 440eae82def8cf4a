import HclSyntax.Text.Alphabetic
import HclSyntax.Text.Numeric

/-!
# `HclSyntax.Text.CharacterClass`: blanks, letters and numerals

A template is Unicode text, so the three classes the grammar is written in are the Unicode ones:
white space (`isWhitespace`), letters (`isAlphabetic`) and letters or numerals (`isAlphanumeric`).
Digits inside numbers are not among them: numbers use the ASCII digits only.

ASCII characters are answered by comparison, all others by the range tables.
-/

set_option autoImplicit false

namespace HclSyntax

/-- Whether a code point lies in one of the closed ranges. -/
def inRanges (ranges : List (Nat × Nat)) (code : Nat) : Bool :=
  ranges.any fun range => range.1 ≤ code && code ≤ range.2

/-- White space is the Unicode property White_Space: tab to carriage return, space, next line,
no-break space and the space characters of the general punctuation blocks. Line breaks belong
to it. -/
def isWhitespace (c : Char) : Bool :=
  inRanges
    [(0x9, 0xD), (0x20, 0x20), (0x85, 0x85), (0xA0, 0xA0), (0x1680, 0x1680), (0x2000, 0x200A),
      (0x2028, 0x2029), (0x202F, 0x202F), (0x205F, 0x205F), (0x3000, 0x3000)]
    c.toNat

/-- Letters, combining vowel signs included. -/
def isAlphabetic (c : Char) : Bool :=
  if c.toNat < 0x80 then c.isAlpha else inRanges alphabeticRanges c.toNat

/-- Letters and numerals of every script. -/
def isAlphanumeric (c : Char) : Bool :=
  if c.toNat < 0x80 then c.isAlphanum
  else inRanges alphabeticRanges c.toNat || inRanges numericRanges c.toNat

/-- A hexadecimal digit in either case. -/
def isHexDigit (c : Char) : Bool :=
  c.isDigit || ('a' ≤ c && c ≤ 'f') || ('A' ≤ c && c ≤ 'F')

/-- Every letter is alphanumeric. -/
theorem isAlphanumeric_of_isAlphabetic {c : Char} (h : isAlphabetic c = true) :
    isAlphanumeric c = true := by
  unfold isAlphabetic at h
  unfold isAlphanumeric
  split
  · next hc =>
    rw [if_pos hc] at h
    simp [Char.isAlphanum, h]
  · next hc =>
    rw [if_neg hc] at h
    simp [h]

end HclSyntax
