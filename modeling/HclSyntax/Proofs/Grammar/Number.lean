import HclSyntax.Grammar.Literal
import HclSyntax.Proofs.Text.CharacterClass
import HclSyntax.Proofs.Text.Trim

/-!
# `HclSyntax.Proofs.Grammar.Number`: numbers and booleans are read back

A text is a number when the rule `Grammar.number` takes all of it (`IsNumber`). The rule looks one
character ahead, so what it takes from the front of a text is a number by itself
(`isNumber_of_matched`), and a number is taken whole before any text that does not go on like one
(`number_append`). Both pass through the shape of numbers, `HasNumberShape`: a sign, then `0x` and
hexadecimal digits, or digits with an exponent and a fraction.

Booleans have the same two facts (`isBoolean_of_matched`, `boolean_append`).
-/

set_option autoImplicit false

namespace HclSyntax.Grammar

open Rule

/-- The characters that may not follow a number. -/
def continuesNumber (c : Char) : Bool :=
  isAlphanumeric c || c == '_' || c == '.'

/-- The rule for numbers takes all of the text. -/
def IsNumber (text : Text) : Prop :=
  number text = .matched text []

/-- The rule for booleans takes all of the text. -/
def IsBoolean (text : Text) : Prop :=
  boolean text = .matched text []

instance (text : Text) : Decidable (IsNumber text) :=
  inferInstanceAs (Decidable (_ = _))

instance (text : Text) : Decidable (IsBoolean text) :=
  inferInstanceAs (Decidable (_ = _))

/-- An optional text is empty where its rule gives up. -/
theorem optionalText_matched_iff {rule : Rule Text} {text found rest : Text} :
    optionalText rule text = .matched found rest
      ↔ rule text = .matched found rest ∨ found = [] ∧ rule.Mismatches text ∧ text = rest := by
  simp only [optionalText, bind_matched_iff, optional_matched_iff, pure_matched_iff]
  constructor
  · rintro ⟨option, behind, ⟨value, rfl, takes⟩ | ⟨rfl, gaveUp, rfl⟩, rfl, rfl⟩
    · exact .inl takes
    · exact .inr ⟨rfl, gaveUp, rfl⟩
  · rintro (takes | ⟨rfl, gaveUp, rfl⟩)
    · exact ⟨some found, rest, .inl ⟨found, rfl, takes⟩, rfl, rfl⟩
    · exact ⟨none, text, .inr ⟨rfl, gaveUp, rfl⟩, rfl, rfl⟩

/-! ### The shape of numbers -/

/-- A text of digits. -/
def AreDigits (text : Text) : Prop :=
  ∀ c ∈ text, c.isDigit = true

/-- An exponent: a mark, perhaps a sign, and digits. -/
def HasExponentShape (text : Text) : Prop :=
  ∃ mark sign digits, text = mark :: Option.toList sign ++ digits ∧ mark ∈ ['e', 'E']
    ∧ (∀ s ∈ sign, s ∈ ['+', '-']) ∧ digits ≠ [] ∧ AreDigits digits

/-- A fraction: a point, digits and perhaps an exponent. -/
def HasFractionShape (text : Text) : Prop :=
  ∃ digits power, text = '.' :: digits ++ power ∧ AreDigits digits
    ∧ (power = [] ∨ HasExponentShape power)

/-- A decimal number: digits, perhaps an exponent and perhaps a fraction. -/
def HasDecimalShape (text : Text) : Prop :=
  ∃ digits power decimals, text = digits ++ power ++ decimals ∧ digits ≠ [] ∧ AreDigits digits
    ∧ (power = [] ∨ HasExponentShape power) ∧ (decimals = [] ∨ HasFractionShape decimals)

/-- A hexadecimal number. -/
def HasHexadecimalShape (text : Text) : Prop :=
  ∃ digits, text = '0' :: 'x' :: digits ∧ digits ≠ [] ∧ ∀ c ∈ digits, isHexDigit c = true

/-- A number, perhaps with a sign. -/
def HasNumberShape (text : Text) : Prop :=
  ∃ sign magnitude, text = Option.toList sign ++ magnitude ∧ (∀ s ∈ sign, s = '-')
    ∧ (HasHexadecimalShape magnitude ∨ HasDecimalShape magnitude)

/-- An exponent is taken where a text starts with one and no digit follows. -/
theorem exponent_matched_iff {text power rest : Text} :
    exponent text = .matched power rest
      ↔ text = power ++ rest ∧ HasExponentShape power ∧ Text.Stops Char.isDigit rest := by
  simp only [exponent, bind_matched_iff, oneOf_matched_iff, takeWhile1_matched_iff,
    pure_matched_iff]
  constructor
  · rintro ⟨mark, behindMark, ⟨rfl, marks⟩, sign, behindSign, signs, digits, tail,
      ⟨rfl, nonempty, all, stops⟩, rfl, rfl⟩
    rcases optional_matched_iff.mp signs with ⟨s, rfl, takes⟩ | ⟨rfl, -, rfl⟩
    · obtain ⟨rfl, choice⟩ := oneOf_matched_iff.mp takes
      exact ⟨by simp, ⟨mark, some s, digits, rfl, marks, by simpa using choice, nonempty, all⟩, stops⟩
    · exact ⟨by simp, ⟨mark, none, digits, rfl, marks, by simp, nonempty, all⟩, stops⟩
  · rintro ⟨rfl, ⟨mark, sign, digits, rfl, marks, signs, nonempty, all⟩, stops⟩
    refine ⟨mark, sign.toList ++ digits ++ rest, ⟨rfl, marks⟩, sign, digits ++ rest, ?_,
      digits, rest, ⟨rfl, nonempty, all, stops⟩, rfl, rfl⟩
    rw [optional_matched_iff]
    cases sign with
    | some s => exact .inl ⟨s, rfl, oneOf_matched_iff.mpr ⟨rfl, signs s rfl⟩⟩
    | none =>
      -- Without a sign the digits come next, and a digit is no sign.
      refine .inr ⟨rfl, mismatches_oneOf_iff.mpr ?_, rfl⟩
      obtain ⟨d, digits, rfl⟩ := List.exists_cons_of_ne_nil nonempty
      have digit : d.isDigit = true := all d (by simp)
      have apart : d ≠ '+' ∧ d ≠ '-' := by
        constructor <;> rintro rfl <;> revert digit <;> decide
      simpa using apart

/-- Where nothing continues a number there is no exponent and no fraction. -/
theorem mismatches_of_stops {rest : Text} (stops : Text.Stops continuesNumber rest) :
    exponent.Mismatches rest ∧ fraction.Mismatches rest := by
  have first (c : Char) (h : continuesNumber c = true) : ∀ d ∈ rest.head?, d ≠ c := by
    rintro d hd rfl
    simp [stops d hd] at h
  constructor
  · refine Mismatches.bind (mismatches_oneOf_iff.mpr fun d hd => ?_) _
    have lower := first 'e' (by decide) d hd
    have upper := first 'E' (by decide) d hd
    simp [lower, upper]
  · refine Mismatches.bind (mismatches_char_iff.mpr fun point => ?_) _
    exact first '.' (by decide) '.' point rfl

/-- Where a number ends no digit follows. -/
theorem stops_isDigit {rest : Text} (stops : Text.Stops continuesNumber rest) :
    Text.Stops Char.isDigit rest := by
  intro c hc
  rw [← Bool.not_eq_true]
  intro digit
  have := stops c hc
  simp [continuesNumber, isAlphanumeric_of_isDigit digit] at this

/-- An exponent or nothing is taken whole where nothing continues a number. -/
theorem optionalExponent_append {power rest : Text} (shape : power = [] ∨ HasExponentShape power)
    (stops : Text.Stops Char.isDigit rest) (none : power = [] → exponent.Mismatches rest) :
    optionalText exponent (power ++ rest) = .matched power rest := by
  rw [optionalText_matched_iff]
  rcases shape with rfl | shape
  · exact .inr ⟨rfl, none rfl, rfl⟩
  · exact .inl (exponent_matched_iff.mpr ⟨rfl, shape, stops⟩)

/-- What is taken for an exponent is one, or nothing. -/
theorem optionalExponent_shape {text power rest : Text}
    (h : optionalText exponent text = .matched power rest) :
    text = power ++ rest ∧ (power = [] ∨ HasExponentShape power) := by
  rcases optionalText_matched_iff.mp h with takes | ⟨rfl, -, rfl⟩
  · obtain ⟨rfl, shape, -⟩ := exponent_matched_iff.mp takes
    exact ⟨rfl, .inr shape⟩
  · exact ⟨rfl, .inl rfl⟩

/-- An exponent does not start with a digit. -/
theorem stops_exponent {power rest : Text} (shape : power = [] ∨ HasExponentShape power)
    (stops : Text.Stops Char.isDigit rest) : Text.Stops Char.isDigit (power ++ rest) := by
  rcases shape with rfl | ⟨mark, sign, digits, rfl, marks, -⟩
  · exact stops
  · simp only [List.mem_cons, List.not_mem_nil, or_false] at marks
    rcases marks with rfl | rfl <;> exact (Text.stops_cons ..).mpr (by decide)

/-- A fraction is taken whole where nothing continues a number. -/
theorem fraction_append {decimals rest : Text} (shape : HasFractionShape decimals)
    (stops : Text.Stops continuesNumber rest) :
    fraction (decimals ++ rest) = .matched decimals rest := by
  obtain ⟨digits, power, rfl, all, powers⟩ := shape
  simp only [fraction, bind_matched_iff, char_matched_iff, takeWhile_matched_iff,
    pure_matched_iff]
  refine ⟨'.', digits ++ (power ++ rest), ⟨by simp, rfl⟩, digits, power ++ rest,
    ⟨rfl, all, stops_exponent powers (stops_isDigit stops)⟩, power, rest, ?_, rfl, rfl⟩
  exact optionalExponent_append powers (stops_isDigit stops) fun _ => (mismatches_of_stops stops).1

/-- What the rule for fractions takes is a fraction. -/
theorem fraction_shape {text decimals rest : Text} (h : fraction text = .matched decimals rest) :
    text = decimals ++ rest ∧ HasFractionShape decimals := by
  simp only [fraction, bind_matched_iff, char_matched_iff, takeWhile_matched_iff,
    pure_matched_iff] at h
  obtain ⟨point, _, ⟨rfl, rfl⟩, digits, _, ⟨rfl, all, -⟩, power, tail, powers, rfl, rfl⟩ := h
  obtain ⟨rfl, shape⟩ := optionalExponent_shape powers
  exact ⟨by simp, digits, power, rfl, all, shape⟩

/-- What the rule for decimal numbers takes is one. -/
theorem decimal_shape {text found rest : Text} (h : decimal text = .matched found rest) :
    text = found ++ rest ∧ HasDecimalShape found := by
  simp only [decimal, bind_matched_iff, takeWhile1_matched_iff, pure_matched_iff] at h
  obtain ⟨digits, _, ⟨rfl, nonempty, all, -⟩, power, _, exponents, decimals, tail, fractions,
    rfl, rfl⟩ := h
  obtain ⟨rfl, powers⟩ := optionalExponent_shape exponents
  rcases optionalText_matched_iff.mp fractions with takes | ⟨rfl, -, rfl⟩
  · obtain ⟨rfl, shape⟩ := fraction_shape takes
    exact ⟨by simp, digits, power, decimals, rfl, nonempty, all, powers, .inr shape⟩
  · exact ⟨by simp, digits, power, [], rfl, nonempty, all, powers, .inl rfl⟩

/-- A decimal number is taken whole where nothing continues it. -/
theorem decimal_append {found rest : Text} (shape : HasDecimalShape found)
    (stops : Text.Stops continuesNumber rest) :
    decimal (found ++ rest) = .matched found rest := by
  obtain ⟨digits, power, decimals, rfl, nonempty, all, powers, fractions⟩ := shape
  -- Each part ends where the next one starts: a fraction with its point, or what stops the number.
  have noDigit : Text.Stops Char.isDigit (decimals ++ rest) := by
    rcases fractions with rfl | ⟨_, _, rfl, -⟩
    · exact stops_isDigit stops
    · exact (Text.stops_cons ..).mpr (by decide)
  have noExponent : exponent.Mismatches (decimals ++ rest) := by
    rcases fractions with rfl | ⟨_, _, rfl, -⟩
    · exact (mismatches_of_stops stops).1
    · exact Mismatches.bind (mismatches_oneOf_iff.mpr (by simp)) _
  have behindPower : optionalText fraction (decimals ++ rest) = .matched decimals rest := by
    rw [optionalText_matched_iff]
    rcases fractions with rfl | fractions
    · exact .inr ⟨rfl, (mismatches_of_stops stops).2, rfl⟩
    · exact .inl (fraction_append fractions stops)
  simp only [decimal, bind_matched_iff, takeWhile1_matched_iff, pure_matched_iff]
  exact ⟨digits, power ++ (decimals ++ rest),
    ⟨by simp, nonempty, all, stops_exponent powers noDigit⟩, power, decimals ++ rest,
    optionalExponent_append powers noDigit fun _ => noExponent, decimals, rest, behindPower,
    rfl, rfl⟩

/-! ### Numbers -/

/-- A hexadecimal number takes all the digits that follow. -/
theorem hexadecimal_matched_iff {text found rest : Text} :
    hexadecimal text = .matched found rest
      ↔ text = found ++ rest ∧ HasHexadecimalShape found ∧ Text.Stops isHexDigit rest := by
  simp only [hexadecimal, bind_matched_iff, word_matched_iff, takeWhile1_matched_iff,
    pure_matched_iff]
  constructor
  · rintro ⟨mark, _, ⟨rfl, rfl⟩, digits, tail, ⟨rfl, nonempty, all, stops⟩, rfl, rfl⟩
    exact ⟨by simp, ⟨digits, rfl, nonempty, all⟩, stops⟩
  · rintro ⟨rfl, ⟨digits, rfl, nonempty, all⟩, stops⟩
    exact ⟨_, digits ++ rest, ⟨rfl, rfl⟩, digits, rest, ⟨rfl, nonempty, all, stops⟩, rfl, rfl⟩

/-- A decimal number is not read as a hexadecimal one where nothing continues it. -/
theorem mismatches_hexadecimal {found rest : Text} (shape : HasDecimalShape found)
    (stops : Text.Stops continuesNumber rest) : hexadecimal.Mismatches (found ++ rest) := by
  obtain ⟨digits, power, decimals, rfl, nonempty, all, powers, fractions⟩ := shape
  refine Mismatches.bind (mismatches_word_iff.mpr ?_) _
  obtain ⟨d, digits, rfl⟩ := List.exists_cons_of_ne_nil nonempty
  rintro ⟨tail, same⟩
  -- The number would have an `x` as its second character. That is a digit, the mark of an exponent,
  -- a point, or already what follows the number.
  have second : (digits ++ (power ++ (decimals ++ rest))).head? = some 'x' := by
    have := congrArg List.tail same
    simp only [List.cons_append, List.append_assoc, List.tail_cons] at this
    rw [← this]
    rfl
  have isMark : 'x'.isDigit = false ∧ 'x' ≠ 'e' ∧ 'x' ≠ 'E' ∧ 'x' ≠ '.' := by decide
  rcases digits with _ | ⟨e, digits⟩
  · rcases powers with rfl | ⟨mark, sign, _, rfl, marks, -⟩
    · rcases fractions with rfl | ⟨_, _, rfl, -⟩
      · have := stops 'x' second
        revert this
        decide
      · simp at second
    · simp only [List.mem_cons, List.not_mem_nil, or_false] at marks
      rcases marks with rfl | rfl <;> simp at second
  · have digit := all e (by simp)
    simp only [List.cons_append, List.head?_cons, Option.some.injEq] at second
    rw [second] at digit
    exact absurd digit (by decide)

/-- What the rule for numbers takes is a number, and nothing continues it. -/
theorem number_shape {text found rest : Text} (h : number text = .matched found rest) :
    text = found ++ rest ∧ HasNumberShape found ∧ Text.Stops continuesNumber rest := by
  simp only [number, bind_matched_iff, notFollowedBy_matched_iff, mismatches_charWhere_iff,
    pure_matched_iff] at h
  obtain ⟨sign, behind, signs, magnitude, tail, takes, _, _, ⟨stops, rfl⟩, rfl, rfl⟩ := h
  have magnitudes : behind = magnitude ++ tail
      ∧ (HasHexadecimalShape magnitude ∨ HasDecimalShape magnitude) := by
    rcases orElse_matched_iff.mp takes with takes | ⟨-, takes⟩
    · obtain ⟨same, shape, -⟩ := hexadecimal_matched_iff.mp takes
      exact ⟨same, .inl shape⟩
    · obtain ⟨same, shape⟩ := decimal_shape takes
      exact ⟨same, .inr shape⟩
  obtain ⟨rfl, shape⟩ := magnitudes
  rcases optional_matched_iff.mp signs with ⟨s, rfl, takes⟩ | ⟨rfl, -, rfl⟩
  · obtain ⟨rfl, rfl⟩ := char_matched_iff.mp takes
    exact ⟨by simp, ⟨some '-', magnitude, rfl, by simp, shape⟩, stops⟩
  · exact ⟨by simp, ⟨none, magnitude, rfl, by simp, shape⟩, stops⟩

/-- A number is taken whole where nothing continues it. -/
theorem number_append_of_shape {found rest : Text} (shape : HasNumberShape found)
    (stops : Text.Stops continuesNumber rest) : number (found ++ rest) = .matched found rest := by
  obtain ⟨sign, magnitude, rfl, signs, shape⟩ := shape
  have takes : (hexadecimal <|> decimal) (magnitude ++ rest) = .matched magnitude rest := by
    rcases shape with shape | shape
    · refine orElse_of_matched (hexadecimal_matched_iff.mpr ⟨rfl, shape, ?_⟩) _
      intro c hc
      rw [← Bool.not_eq_true]
      intro digit
      have := stops c hc
      simp [continuesNumber, isAlphanumeric_of_isHexDigit digit] at this
    · rw [orElse_of_mismatches (mismatches_hexadecimal shape stops)]
      exact decimal_append shape stops
  -- A magnitude starts with a digit, so without a sign none is taken.
  have unsigned : (char '-').Mismatches (magnitude ++ rest) := by
    rw [mismatches_char_iff]
    rcases shape with ⟨_, rfl, -⟩ | ⟨digits, _, _, rfl, nonempty, all, -⟩
    · simp
    · obtain ⟨d, digits, rfl⟩ := List.exists_cons_of_ne_nil nonempty
      have digit : d.isDigit = true := all d (by simp)
      have apart : d ≠ '-' := by rintro rfl; revert digit; decide
      simpa using apart
  simp only [number, bind_matched_iff, notFollowedBy_matched_iff, mismatches_charWhere_iff,
    pure_matched_iff]
  refine ⟨sign, magnitude ++ rest, ?_, magnitude, rest, takes, (), rest, ⟨stops, rfl⟩, rfl, rfl⟩
  rw [optional_matched_iff]
  cases sign with
  | none => exact .inr ⟨rfl, unsigned, rfl⟩
  | some s =>
    obtain rfl := signs s rfl
    exact .inl ⟨'-', rfl, by simp⟩

/-- Numbers are the texts of their shape. -/
theorem isNumber_iff {text : Text} : IsNumber text ↔ HasNumberShape text := by
  constructor
  · intro h
    exact (number_shape h).2.1
  · intro shape
    have whole := number_append_of_shape shape (Text.stops_nil _)
    rwa [List.append_nil] at whole

/-- What the rule for numbers takes is a number by itself. -/
theorem isNumber_of_matched {text found rest : Text} (h : number text = .matched found rest) :
    IsNumber found :=
  isNumber_iff.mpr (number_shape h).2.1

/-- A number is taken whole where nothing continues it. -/
theorem number_append {text rest : Text} (h : IsNumber text)
    (stops : Text.Stops continuesNumber rest) : number (text ++ rest) = .matched text rest :=
  number_append_of_shape (isNumber_iff.mp h) stops

/-! ### Booleans -/

/-- A word is taken whatever the case of its letters. -/
theorem wordAnyCase_matched_iff {expected text found rest : Text} :
    wordAnyCase expected text = .matched found rest
      ↔ text = found ++ rest ∧ found.map Char.toLower = expected := by
  unfold wordAnyCase
  dsimp only
  split
  · next same =>
    simp only [Reply.matched.injEq]
    constructor
    · rintro ⟨rfl, rfl⟩
      exact ⟨(List.take_append_drop ..).symm, same⟩
    · rintro ⟨rfl, rfl⟩
      simp
  · next apart =>
    simp only [reduceCtorEq, false_iff]
    rintro ⟨rfl, rfl⟩
    simp at apart

/-- It is not taken where another text stands in its place. -/
theorem mismatches_wordAnyCase_iff {expected text : Text} :
    (wordAnyCase expected).Mismatches text
      ↔ (text.take expected.length).map Char.toLower ≠ expected := by
  unfold wordAnyCase Mismatches
  dsimp only
  split
  · next same => simpa using same
  · next apart => simpa using apart

/-- What the rule for booleans takes is one, and no character of a name follows. -/
theorem boolean_matched_iff {text found rest : Text} :
    boolean text = .matched found rest
      ↔ text = found ++ rest ∧ found.map Char.toLower ∈ ["true".toList, "false".toList]
          ∧ Text.Stops isNameChar rest := by
  simp only [boolean, bind_matched_iff, notFollowedBy_matched_iff, mismatches_charWhere_iff,
    pure_matched_iff, orElse_matched_iff, wordAnyCase_matched_iff, List.mem_cons, List.not_mem_nil,
    or_false]
  constructor
  · rintro ⟨word, behind, ⟨rfl, lower⟩ | ⟨-, rfl, lower⟩, _, _, ⟨stops, rfl⟩, rfl, rfl⟩
    · exact ⟨rfl, .inl lower, stops⟩
    · exact ⟨rfl, .inr lower, stops⟩
  · rintro ⟨rfl, lower, stops⟩
    refine ⟨found, rest, ?_, (), rest, ⟨stops, rfl⟩, rfl, rfl⟩
    rcases lower with lower | lower
    · exact .inl ⟨rfl, lower⟩
    -- `false` is read as the second alternative, so its first four letters must not be `true`.
    · refine .inr ⟨mismatches_wordAnyCase_iff.mpr fun same => ?_, rfl, lower⟩
      have long : 4 ≤ found.length := by
        have := congrArg List.length lower
        rw [List.length_map] at this
        simp [this]
      change (List.take 4 _).map _ = _ at same
      rw [List.take_append_of_le_length long, List.map_take, lower] at same
      revert same
      decide

/-- Booleans are two words, whatever the case of their letters. -/
theorem isBoolean_iff {text : Text} :
    IsBoolean text ↔ text.map Char.toLower ∈ ["true".toList, "false".toList] := by
  rw [IsBoolean, boolean_matched_iff]
  simp

/-- What the rule for booleans takes is a boolean by itself. -/
theorem isBoolean_of_matched {text found rest : Text} (h : boolean text = .matched found rest) :
    IsBoolean found :=
  isBoolean_iff.mpr (boolean_matched_iff.mp h).2.1

/-- A boolean is taken whole where the name does not go on. -/
theorem boolean_append {text rest : Text} (h : IsBoolean text)
    (stops : Text.Stops isNameChar rest) : boolean (text ++ rest) = .matched text rest :=
  boolean_matched_iff.mpr ⟨rfl, isBoolean_iff.mp h, stops⟩

/-! ### Texts that are neither -/

instance {rule : Rule Text} [Tentative rule] : Tentative (optionalText rule) := by
  unfold optionalText
  infer_instance

instance : Tentative exponent := by
  unfold exponent
  infer_instance

instance : Tentative fraction := by
  unfold fraction
  infer_instance

instance : Tentative decimal := by
  unfold decimal
  infer_instance

instance : Tentative hexadecimal := by
  unfold hexadecimal
  infer_instance

instance : Tentative number := by
  unfold number
  infer_instance

instance (expected : Text) : Tentative (wordAnyCase expected) where
  answers text := by
    by_cases h : (text.take expected.length).map Char.toLower = expected
    · exact .inr ⟨_, _, if_pos h⟩
    · exact .inl (mismatches_wordAnyCase_iff.mpr h)

instance : Tentative boolean := by
  unfold boolean
  infer_instance

/-- The characters of numbers. -/
def isNumberChar (c : Char) : Bool :=
  continuesNumber c || c == '+' || c == '-'

/-- A digit is a character of numbers. -/
theorem isNumberChar_of_isDigit {c : Char} (h : c.isDigit = true) : isNumberChar c = true := by
  simp [isNumberChar, continuesNumber, isAlphanumeric_of_isDigit h]

/-- So are all characters of an exponent. -/
theorem isNumberChar_of_exponent {text : Text} (shape : text = [] ∨ HasExponentShape text) :
    ∀ c ∈ text, isNumberChar c = true := by
  rcases shape with rfl | ⟨mark, sign, digits, rfl, marks, signs, -, all⟩
  · simp
  · have ofMark : ∀ c ∈ ['e', 'E'], isNumberChar c = true := by decide
    have ofSign : ∀ c ∈ ['+', '-'], isNumberChar c = true := by decide
    intro c hc
    rcases List.mem_append.mp hc with hc | hc
    · rcases List.mem_cons.mp hc with rfl | hc
      · exact ofMark c marks
      · exact ofSign c (signs c (Option.mem_toList.mp hc))
    · exact isNumberChar_of_isDigit (all c hc)

/-- So are all characters of a fraction. -/
theorem isNumberChar_of_fraction {text : Text} (shape : text = [] ∨ HasFractionShape text) :
    ∀ c ∈ text, isNumberChar c = true := by
  rcases shape with rfl | ⟨digits, power, rfl, all, powers⟩
  · simp
  · intro c hc
    rcases List.mem_append.mp hc with hc | hc
    · rcases List.mem_cons.mp hc with rfl | hc
      · decide
      · exact isNumberChar_of_isDigit (all c hc)
    · exact isNumberChar_of_exponent powers c hc

/-- A number is made of such characters. -/
theorem isNumberChar_of_shape {text : Text} (shape : HasNumberShape text) :
    ∀ c ∈ text, isNumberChar c = true := by
  obtain ⟨sign, magnitude, rfl, signs, digits⟩ := shape
  intro c hc
  rcases List.mem_append.mp hc with hc | hc
  · obtain rfl := signs c (Option.mem_toList.mp hc)
    decide
  -- Behind the sign stands a hexadecimal number or a decimal one.
  · rcases digits with ⟨digits, rfl, -, all⟩ | ⟨digits, power, decimals, rfl, -, all, powers, points⟩
    · rcases List.mem_cons.mp hc with rfl | hc
      · decide
      · rcases List.mem_cons.mp hc with rfl | hc
        · decide
        · simp [isNumberChar, continuesNumber, isAlphanumeric_of_isHexDigit (all c hc)]
    · rcases List.mem_append.mp hc with hc | hc
      · rcases List.mem_append.mp hc with hc | hc
        · exact isNumberChar_of_isDigit (all c hc)
        · exact isNumberChar_of_exponent powers c hc
      · exact isNumberChar_of_fraction points c hc

/-- A text does not start with a number when no beginning of it is one that ends there. -/
theorem mismatches_number_iff {text : Text} :
    number.Mismatches text
      ↔ ∀ found rest, text = found ++ rest → HasNumberShape found →
          ¬ Text.Stops continuesNumber rest := by
  constructor
  · rintro mismatch found rest rfl shape stops
    exact not_mismatches_of_matched (number_append_of_shape shape stops) mismatch
  · intro none
    rcases answers number text with mismatch | ⟨found, rest, matched⟩
    · exact mismatch
    · obtain ⟨same, shape, stops⟩ := number_shape matched
      exact absurd stops (none found rest same shape)

/-- A text that does not start with a number does not do so before other text either, when that
does not start with a character of a number. -/
theorem mismatches_number_append {text rest : Text} (h : number.Mismatches text)
    (stops : Text.Stops isNumberChar rest) : number.Mismatches (text ++ rest) := by
  refine mismatches_number_iff.mpr fun found behind same shape ends => ?_
  -- The number could end in the text, or reach into what follows by a character of a number.
  rcases List.append_eq_append_iff.mp same with ⟨more, rfl, rfl⟩ | ⟨more, rfl, rfl⟩
  · cases more with
    | nil =>
      rw [List.append_nil] at shape
      exact not_mismatches_of_matched (isNumber_iff.mpr shape) h
    | cons c more =>
      have digit : isNumberChar c = true := isNumberChar_of_shape shape c (by simp)
      rw [List.cons_append, Text.stops_cons] at stops
      simp [digit] at stops
  · exact mismatches_number_iff.mp h found more rfl shape ends.of_append

/-- A text that does not start with a number before other text does not do so by itself. -/
theorem mismatches_number_of_append {text rest : Text} (h : number.Mismatches (text ++ rest))
    (stops : Text.Stops continuesNumber rest) : number.Mismatches text := by
  refine mismatches_number_iff.mpr fun found behind same shape ends => ?_
  refine mismatches_number_iff.mp h found (behind ++ rest) (by simp [same]) shape ?_
  cases behind with
  | nil => exact stops
  | cons c behind => simpa using ends

/-- A magnitude starts with a digit. -/
theorem head_of_magnitude {magnitude : Text}
    (shape : HasHexadecimalShape magnitude ∨ HasDecimalShape magnitude) :
    ∃ c rest, magnitude = c :: rest ∧ c.isDigit = true := by
  rcases shape with ⟨digits, rfl, -, -⟩ | ⟨digits, power, decimals, rfl, nonempty, all, -, -⟩
  · exact ⟨'0', 'x' :: digits, rfl, by decide⟩
  · obtain ⟨c, digits, rfl⟩ := List.exists_cons_of_ne_nil nonempty
    exact ⟨c, digits ++ power ++ decimals, rfl, all c (by simp)⟩

/-- A text starts with a number only if it starts with a digit or a sign. -/
theorem mismatches_number {text : Text}
    (stops : Text.Stops (fun c => c.isDigit || c == '-') text) : number.Mismatches text := by
  refine mismatches_number_iff.mpr fun found behind same shape _ => ?_
  obtain ⟨sign, magnitude, rfl, signs, digits⟩ := shape
  obtain ⟨c, rest, rfl, digit⟩ := head_of_magnitude digits
  rw [same] at stops
  cases sign with
  | none => simp [digit] at stops
  | some s =>
    obtain rfl := signs s rfl
    simp at stops

/-- A sign makes no number of what is none. -/
theorem mismatches_number_sign {text : Text}
    (h : text.head? = some '-' ∨ number.Mismatches text) : number.Mismatches ('-' :: text) := by
  refine mismatches_number_iff.mpr fun found behind same shape ends => ?_
  obtain ⟨sign, magnitude, rfl, signs, digits⟩ := shape
  obtain ⟨c, rest, rfl, digit⟩ := head_of_magnitude digits
  have notSign : c ≠ '-' := by
    rintro rfl
    exact absurd digit (by decide)
  cases sign with
  | none => exact notSign (List.cons.inj same).1.symm
  | some s =>
    -- The minus is the sign of the number, and the rest of it is a number too.
    obtain rfl : text = c :: rest ++ behind := (List.cons.inj same).2
    rcases h with head | mismatch
    · exact notSign (by simpa using head)
    · exact mismatches_number_iff.mp mismatch (c :: rest) behind rfl
        ⟨none, c :: rest, rfl, by simp, digits⟩ ends

/-- A lower case letter is written by a letter only. -/
theorem isAlphabetic_of_toLower {c : Char} (h : c.toLower.isLower = true) :
    isAlphabetic c = true := by
  -- Lowering the case changes ASCII letters only, so the letter that was written is one as well.
  have ascii : c.toNat < 0x80 ∧ c.isAlpha = true := by
    unfold Char.toLower at h
    split at h
    · next upper =>
      exact ⟨Nat.lt_of_le_of_lt (UInt32.le_iff_toNat_le.mp upper.2) (by decide),
        Bool.or_eq_true_iff.mpr (.inl (decide_eq_true upper))⟩
    · have high : c.val ≤ 'z'.val := by simpa using (Bool.and_eq_true_iff.mp h).2
      exact ⟨Nat.lt_of_le_of_lt (UInt32.le_iff_toNat_le.mp high) (by decide),
        Bool.or_eq_true_iff.mpr (.inr h)⟩
  simp [isAlphabetic, ascii]

/-- A text does not start with a boolean when no beginning of it is one that ends there. -/
theorem mismatches_boolean_iff {text : Text} :
    boolean.Mismatches text
      ↔ ∀ found rest, text = found ++ rest → IsBoolean found → ¬ Text.Stops isNameChar rest := by
  constructor
  · rintro mismatch found rest rfl word stops
    exact not_mismatches_of_matched (boolean_append word stops) mismatch
  · intro none
    rcases answers boolean text with mismatch | ⟨found, rest, matched⟩
    · exact mismatch
    · obtain ⟨same, -, stops⟩ := boolean_matched_iff.mp matched
      exact absurd stops (none found rest same (isBoolean_of_matched matched))

/-- A boolean is made of letters. -/
theorem isAlphabetic_of_isBoolean {text : Text} (h : IsBoolean text) :
    ∀ c ∈ text, isAlphabetic c = true := by
  intro c hc
  have lower : c.toLower ∈ text.map Char.toLower := List.mem_map_of_mem hc
  have letters : ∀ word ∈ ["true".toList, "false".toList], ∀ d ∈ word, Char.isLower d = true := by
    decide
  exact isAlphabetic_of_toLower (letters _ (isBoolean_iff.mp h) _ lower)

/-- A boolean is made of characters of names. -/
theorem isNameChar_of_isBoolean {text : Text} (h : IsBoolean text) :
    ∀ c ∈ text, isNameChar c = true := by
  intro c hc
  simp [isNameChar, isAlphanumeric_of_isAlphabetic (isAlphabetic_of_isBoolean h c hc)]

/-- A text that does not start with a boolean does not do so before other text either,
when that does not start with a character of a name. -/
theorem mismatches_boolean_append {text rest : Text} (h : boolean.Mismatches text)
    (stops : Text.Stops isNameChar rest) : boolean.Mismatches (text ++ rest) := by
  refine mismatches_boolean_iff.mpr fun found behind same word ends => ?_
  rcases List.append_eq_append_iff.mp same with ⟨more, rfl, rfl⟩ | ⟨more, rfl, rfl⟩
  · cases more with
    | nil =>
      rw [List.append_nil] at word
      exact not_mismatches_of_matched word h
    | cons c more =>
      have letter : isNameChar c = true := isNameChar_of_isBoolean word c (by simp)
      rw [List.cons_append, Text.stops_cons] at stops
      simp [letter] at stops
  · exact mismatches_boolean_iff.mp h found more rfl word ends.of_append

/-- A text that does not start with a boolean before other text does not do so by itself, unless it
is one. -/
theorem mismatches_boolean_of_append {text rest : Text} (h : boolean.Mismatches (text ++ rest)) :
    boolean.Mismatches text ∨ IsBoolean text := by
  rw [or_iff_not_imp_right]
  refine fun notBoolean => mismatches_boolean_iff.mpr fun found behind same word ends => ?_
  cases behind with
  | nil => exact notBoolean (by simpa [same] using word)
  | cons c behind =>
    exact mismatches_boolean_iff.mp h found (c :: behind ++ rest) (by simp [same]) word
      (by simpa using ends)

end HclSyntax.Grammar
