import HclSyntax.Proofs.Grammar.Number
import Mathlib.Computability.RegularExpressions

/-!
# `HclSyntax.Proofs.Grammar.NumberPattern`: numbers as a regular expression

The rule for numbers is an ordered choice of greedy parts that never give back what they took.
`Pattern.number` is the same grammar as a regular expression, which knows nothing of order or
greed: a sign, then `0x` and hexadecimal digits, or digits with an exponent and a fraction.

* `Pattern.mem_number_iff`: its words are the texts that have the shape of a number;
* `number_iff_startsWithNumber`: the rule takes a word of it from a text exactly where nothing that
  follows continues the word, and a text has at most one such word at its start.
-/

set_option autoImplicit false

namespace HclSyntax

/-- A regular expression over characters. -/
abbrev Pattern : Type := RegularExpression Char

namespace Pattern

/-! ### Patterns of single characters -/

/-- One of some characters. -/
def oneOf (chars : Text) : Pattern :=
  chars.foldr (fun c others => .char c + others) 0

/-- A pattern that may be left out. -/
def optional (pattern : Pattern) : Pattern :=
  1 + pattern

/-- A pattern once or more often. -/
def oneOrMore (pattern : Pattern) : Pattern :=
  pattern * pattern.star

/-- The pattern of a character has the text of that character only. -/
theorem mem_char_iff {c : Char} {text : Text} :
    text ∈ (RegularExpression.char c).matches' ↔ text = [c] :=
  Iff.rfl

/-- A choice of characters has the texts of one of them. -/
theorem mem_oneOf_iff {chars text : Text} :
    text ∈ (oneOf chars).matches' ↔ ∃ c ∈ chars, text = [c] := by
  induction chars with
  | nil => simp [oneOf, Language.notMem_zero]
  | cons c chars ih =>
    have split : text ∈ (oneOf (c :: chars)).matches' ↔ text = [c] ∨ text ∈ (oneOf chars).matches' :=
      Language.mem_add ..
    rw [split, ih]
    simp

/-- An optional pattern has the empty text besides its own. -/
theorem mem_optional_iff {pattern : Pattern} {text : Text} :
    text ∈ (optional pattern).matches' ↔ text = [] ∨ text ∈ pattern.matches' :=
  Language.mem_add ..

/-- Two patterns in a row have the texts that can be cut between them. -/
theorem mem_mul_iff {front back : Pattern} {text : Text} :
    text ∈ (front * back).matches'
      ↔ ∃ a b, text = a ++ b ∧ a ∈ front.matches' ∧ b ∈ back.matches' := by
  rw [RegularExpression.matches'_mul, Language.mem_mul]
  constructor
  · rintro ⟨a, ha, b, hb, rfl⟩
    exact ⟨a, b, rfl, ha, hb⟩
  · rintro ⟨a, b, rfl, ha, hb⟩
    exact ⟨a, ha, b, hb, rfl⟩

/-- A choice of two patterns has the texts of either. -/
theorem mem_add_iff {left right : Pattern} {text : Text} :
    text ∈ (left + right).matches' ↔ text ∈ left.matches' ∨ text ∈ right.matches' :=
  Language.mem_add ..

/-- Repeating a choice of characters gives the texts made of them. -/
theorem mem_star_oneOf_iff {chars text : Text} :
    text ∈ (oneOf chars).star.matches' ↔ ∀ c ∈ text, c ∈ chars := by
  rw [RegularExpression.matches'_star, Language.mem_kstar]
  constructor
  · rintro ⟨pieces, rfl, all⟩ c hc
    obtain ⟨piece, mem, hc⟩ := List.mem_flatten.mp hc
    obtain ⟨d, hd, rfl⟩ := mem_oneOf_iff.mp (all piece mem)
    rwa [List.mem_singleton.mp hc]
  · intro all
    refine ⟨text.map fun c => [c], (List.flatMap_singleton' text).symm, fun piece mem => ?_⟩
    obtain ⟨c, hc, rfl⟩ := List.mem_map.mp mem
    exact mem_oneOf_iff.mpr ⟨c, all c hc, rfl⟩

/-- Repeating a choice of characters at least once leaves out the empty text. -/
theorem mem_oneOrMore_oneOf_iff {chars text : Text} :
    text ∈ (oneOf chars).oneOrMore.matches' ↔ text ≠ [] ∧ ∀ c ∈ text, c ∈ chars := by
  rw [oneOrMore, mem_mul_iff]
  constructor
  · rintro ⟨first, others, rfl, hfirst, hothers⟩
    obtain ⟨c, hc, rfl⟩ := mem_oneOf_iff.mp hfirst
    exact ⟨by simp, List.forall_mem_cons.mpr ⟨hc, mem_star_oneOf_iff.mp hothers⟩⟩
  · rintro ⟨nonempty, all⟩
    obtain ⟨c, others, rfl⟩ := List.exists_cons_of_ne_nil nonempty
    obtain ⟨hc, hothers⟩ := List.forall_mem_cons.mp all
    exact ⟨[c], others, rfl, mem_oneOf_iff.mpr ⟨c, hc, rfl⟩, mem_star_oneOf_iff.mpr hothers⟩

/-! ### The pattern of numbers -/

/-- The decimal digits. -/
def digits : Text := "0123456789".toList

/-- The hexadecimal digits in either case. -/
def hexDigits : Text := "0123456789abcdefABCDEF".toList

/-- `E = [eE][+-]?[0-9]+` -/
def exponent : Pattern :=
  oneOf ['e', 'E'] * (optional (oneOf ['+', '-']) * oneOrMore (oneOf digits))

/-- `[.][0-9]*E?` -/
def fraction : Pattern :=
  .char '.' * ((oneOf digits).star * optional exponent)

/-- `[0-9]+E?([.][0-9]*E?)?` -/
def decimal : Pattern :=
  oneOrMore (oneOf digits) * (optional exponent * optional fraction)

/-- `0x[0-9a-fA-F]+` -/
def hexadecimal : Pattern :=
  .char '0' * (.char 'x' * oneOrMore (oneOf hexDigits))

/-- `-?(0x[0-9a-fA-F]+|[0-9]+E?([.][0-9]*E?)?)` -/
def number : Pattern :=
  optional (.char '-') * (hexadecimal + decimal)

/-- The list of digits has the characters that the scanner takes for digits. -/
theorem mem_digits_iff {c : Char} : c ∈ digits ↔ c.isDigit = true := by
  have listed : ∀ d ∈ digits, d.isDigit = true := by decide
  have each : ∀ n < 0x80, (Char.ofNat n).isDigit = true → Char.ofNat n ∈ digits := by decide
  refine ⟨listed c, fun digit => ?_⟩
  exact @ascii_induction (fun c => c.isDigit = true → c ∈ digits) each c
    (toNat_lt_of_isHexDigit (isHexDigit_of_isDigit digit)) digit

/-- The list of hexadecimal digits has the characters that the scanner takes for them. -/
theorem mem_hexDigits_iff {c : Char} : c ∈ hexDigits ↔ isHexDigit c = true := by
  have listed : ∀ d ∈ hexDigits, isHexDigit d = true := by decide
  have each : ∀ n < 0x80, isHexDigit (Char.ofNat n) = true → Char.ofNat n ∈ hexDigits := by decide
  refine ⟨listed c, fun digit => ?_⟩
  exact @ascii_induction (fun c => isHexDigit c = true → c ∈ hexDigits) each c
    (toNat_lt_of_isHexDigit digit) digit

open Grammar

variable {text : Text}

/-- A repetition of digits is what the scanner takes as a run of them. -/
theorem mem_star_digits_iff : text ∈ (oneOf digits).star.matches' ↔ AreDigits text := by
  simp only [mem_star_oneOf_iff, mem_digits_iff, AreDigits]

/-- A repetition of at least one digit is a run that is not empty. -/
theorem mem_oneOrMore_digits_iff :
    text ∈ (oneOf digits).oneOrMore.matches' ↔ text ≠ [] ∧ AreDigits text := by
  simp only [mem_oneOrMore_oneOf_iff, mem_digits_iff, AreDigits]

/-- One of some characters or nothing. -/
theorem mem_optional_oneOf_iff {chars : Text} :
    text ∈ (optional (oneOf chars)).matches'
      ↔ ∃ found : Option Char, text = found.toList ∧ ∀ c ∈ found, c ∈ chars := by
  rw [mem_optional_iff, mem_oneOf_iff, Option.exists]
  simp [and_comm]

/-- The pattern of an exponent has the texts that the rule takes. -/
theorem mem_exponent_iff : text ∈ exponent.matches' ↔ HasExponentShape text := by
  simp only [exponent, mem_mul_iff, mem_oneOf_iff, mem_optional_oneOf_iff,
    mem_oneOrMore_digits_iff, HasExponentShape]
  constructor
  · rintro ⟨_, _, rfl, ⟨mark, marks, rfl⟩, _, digits, rfl, ⟨sign, rfl, signs⟩, nonempty, all⟩
    exact ⟨mark, sign, digits, by simp, marks, signs, nonempty, all⟩
  · rintro ⟨mark, sign, digits, rfl, marks, signs, nonempty, all⟩
    exact ⟨[mark], sign.toList ++ digits, by simp, ⟨mark, marks, rfl⟩, sign.toList, digits, rfl,
      ⟨sign, rfl, signs⟩, nonempty, all⟩

/-- The pattern of a fraction has the texts that the rule takes. -/
theorem mem_fraction_iff : text ∈ fraction.matches' ↔ HasFractionShape text := by
  simp only [fraction, mem_mul_iff, mem_char_iff, mem_star_digits_iff, mem_optional_iff,
    mem_exponent_iff, HasFractionShape]
  constructor
  · rintro ⟨_, _, rfl, rfl, digits, power, rfl, all, powers⟩
    exact ⟨digits, power, rfl, all, powers⟩
  · rintro ⟨digits, power, rfl, all, powers⟩
    exact ⟨['.'], digits ++ power, rfl, rfl, digits, power, rfl, all, powers⟩

/-- The pattern of a decimal number has the texts that the rule takes. -/
theorem mem_decimal_iff : text ∈ decimal.matches' ↔ HasDecimalShape text := by
  simp only [decimal, mem_mul_iff, mem_oneOrMore_digits_iff, mem_optional_iff, mem_exponent_iff,
    mem_fraction_iff, HasDecimalShape]
  constructor
  · rintro ⟨digits, _, rfl, ⟨nonempty, all⟩, power, decimals, rfl, powers, fractions⟩
    exact ⟨digits, power, decimals, by simp, nonempty, all, powers, fractions⟩
  · rintro ⟨digits, power, decimals, rfl, nonempty, all, powers, fractions⟩
    exact ⟨digits, power ++ decimals, by simp, ⟨nonempty, all⟩, power, decimals, rfl, powers,
      fractions⟩

/-- The pattern of a hexadecimal number has the texts that the rule takes. -/
theorem mem_hexadecimal_iff : text ∈ hexadecimal.matches' ↔ HasHexadecimalShape text := by
  simp only [hexadecimal, mem_mul_iff, mem_char_iff, mem_oneOrMore_oneOf_iff, mem_hexDigits_iff,
    HasHexadecimalShape]
  constructor
  · rintro ⟨_, _, rfl, rfl, _, digits, rfl, rfl, nonempty, all⟩
    exact ⟨digits, rfl, nonempty, all⟩
  · rintro ⟨digits, rfl, nonempty, all⟩
    exact ⟨['0'], 'x' :: digits, rfl, rfl, ['x'], digits, rfl, rfl, nonempty, all⟩

/-- The words of the pattern are the texts that have the shape of a number. -/
theorem mem_number_iff : text ∈ number.matches' ↔ HasNumberShape text := by
  simp only [number, mem_mul_iff, mem_optional_iff, mem_char_iff, mem_add_iff, mem_hexadecimal_iff,
    mem_decimal_iff, HasNumberShape]
  constructor
  · rintro ⟨_, magnitude, rfl, rfl | rfl, shape⟩
    · exact ⟨none, magnitude, rfl, by simp, shape⟩
    · exact ⟨some '-', magnitude, rfl, by simp, shape⟩
  · rintro ⟨sign, magnitude, rfl, signs, shape⟩
    refine ⟨sign.toList, magnitude, rfl, ?_, shape⟩
    cases sign with
    | none => exact .inl rfl
    | some s => exact .inr (congrArg (fun c => [c]) (signs s rfl))

end Pattern

namespace Grammar

/-- A text starts with a word of the pattern of numbers, and the text ends behind it or goes on with a
character that is no letter, no numeral, no underscore and no point. -/
structure StartsWithNumber (text found rest : Text) : Prop where
  whole : text = found ++ rest
  word : found ∈ Pattern.number.matches'
  ends : rest = [] ∨ ∃ c more, rest = c :: more ∧ isAlphanumeric c = false ∧ c ≠ '_' ∧ c ≠ '.'

/-- A number ends at the end of the text, and in front of what is neither a letter, a digit, an
underscore nor a dot. -/
theorem stops_continuesNumber_iff {rest : Text} :
    Text.Stops continuesNumber rest
      ↔ rest = [] ∨ ∃ c more, rest = c :: more ∧ isAlphanumeric c = false ∧ c ≠ '_' ∧ c ≠ '.' := by
  cases rest with
  | nil => simp [Text.stops_nil]
  | cons c more => simp [Text.stops_cons, continuesNumber, and_assoc]

/-- The rule for numbers takes a text of the pattern in front of a character that does not go on
with it, and nothing else. -/
theorem number_matched_iff {text found rest : Text} :
    number text = .matched found rest ↔ StartsWithNumber text found rest := by
  constructor
  · intro matched
    obtain ⟨whole, shape, stops⟩ := number_shape matched
    exact ⟨whole, Pattern.mem_number_iff.mpr shape, stops_continuesNumber_iff.mp stops⟩
  · rintro ⟨rfl, word, ends⟩
    exact number_append_of_shape (Pattern.mem_number_iff.mp word) (stops_continuesNumber_iff.mpr ends)

/-- The rule for numbers takes a word of the pattern of numbers from the start of a text exactly where
the word ends, and there is at most one word for it to take. -/
theorem number_iff_startsWithNumber (text : Text) :
    (∀ found rest, number text = .matched found rest ↔ StartsWithNumber text found rest)
      ∧ {found | ∃ rest, StartsWithNumber text found rest}.Subsingleton := by
  refine ⟨fun found rest => number_matched_iff, ?_⟩
  rintro found ⟨rest, starts⟩ other ⟨behind, startsToo⟩
  -- The rule answers once, so the two words are its answer.
  have same := (number_matched_iff.mpr starts).symm.trans (number_matched_iff.mpr startsToo)
  cases same
  rfl

end Grammar

end HclSyntax
