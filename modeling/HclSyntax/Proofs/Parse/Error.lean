import Mathlib
import HclSyntax.Proofs.Grammar.Fault
import HclSyntax.Proofs.Parse.Basic

/-!
# `HclSyntax.Proofs.Parse.Error`: what the errors point at

An error names one place of the text. The two theorems of this module say what stands there:

* `parse_unterminated`: the construct that the error names is open at the place and never ends;
* `parse_unexpected`: a syntax error of a whole template points at a character that is no white
  space, at the top level where no declaration starts, or inside blocks where their closing brace is
  missing.
-/

set_option autoImplicit false

namespace HclSyntax

open Grammar

/-! ### Places -/

/-- The place where `rest` begins is behind the bytes before it. -/
theorem Location.before_offset (before rest : Text) :
    (Location.before (before ++ rest) rest).offset = before.utf8Length := by
  simp [Location.before]

/-- A place that has a character behind it is not the end of the text. -/
theorem Location.before_offset_lt (before : Text) (c : Char) (rest : Text) :
    (Location.before (before ++ c :: rest) (c :: rest)).offset
      < (before ++ c :: rest).utf8Length := by
  have := c.utf8Size_pos
  rw [before_offset, Text.utf8Length_append, Text.utf8Length_cons]
  omega

/-! ### Constructs that never end -/

/-- The construct is open behind some part of the text and never ends, and the error points right
behind that part. -/
def PointsAtUnclosed (text : Text) (place : Location) (construct : Construct) : Prop :=
  ∃ before rest, text = before ++ rest ∧ place.offset = before.utf8Length
    ∧ construct.Unclosed before rest

/-- What is known of the faults of a rule is known of the error they make. -/
theorem pointsAtUnclosed_of_parseAll {α : Type} {rule : Rule α} {expected : Expectation}
    {text start : Text} (inside : start <:+ text)
    (fits : ∀ rest fault, rule start = .committed rest fault →
      ∃ before, start = before ++ rest ∧ fault.Fits before rest)
    {place : Location} {construct : Construct}
    (h : parseAll rule expected text start = .error (.unterminated place construct)) :
    PointsAtUnclosed text place construct := by
  unfold parseAll at h
  split at h
  · split at h <;> cases h
  · cases h
  · next rest fault committed =>
    obtain ⟨before, rfl, known⟩ := Rule.Cause.of_suffix inside (fits rest fault committed)
    refine ⟨before, rest, rfl, ?_⟩
    -- A body that is not closed is reported as a construct without an end only where the text ends.
    cases fault with
    | unterminated found =>
      cases h
      exact ⟨Location.before_offset before rest, known⟩
    | unclosedBody bodies =>
      rw [Except.error.injEq, ParseError.ofFault] at h
      split at h
      · next empty =>
        cases h
        exact ⟨Location.before_offset before rest, List.isEmpty_iff.mp empty⟩
      · cases h

/-- The error for a construct that never ends points at the place right behind its opening: the quote
of a string, the marker of a comment, the first line of a heredoc. All other constructs are missing
their end where the text ends. -/
theorem parse_unterminated {text : Text} {place : Location} {construct : Construct}
    (h : parse text = .error (.unterminated place construct)
      ∨ parseValue text = .error (.unterminated place construct)) :
    PointsAtUnclosed text place construct := by
  rcases h with h | h
  · exact pointsAtUnclosed_of_parseAll (List.suffix_refl text) (fits_inner text).2
      (parse_error_iff.mp h)
  · exact pointsAtUnclosed_of_parseAll (List.dropWhile_suffix _) (fits_inner _).1 h

/-- A string that is still open where the text ends, as a property and as a value. -/
theorem parse_unterminated_string :
    parse "a = \"b".toList = .error (.unterminated ⟨5, 1, 6⟩ .quotedString)
      ∧ PointsAtUnclosed "a = \"b".toList ⟨5, 1, 6⟩ .quotedString :=
  ⟨by cbv, parse_unterminated (.inl (by cbv))⟩

/-! ### Syntax errors of a whole template -/

/-- A place in front of some text that starts with no white space is that of its first character. -/
theorem exists_character {text rest : Text} (inside : rest <:+ text) (nonempty : rest ≠ [])
    (noSpace : Text.Stops isWhitespace rest) :
    ∃ (before : Text) (c : Char) (tail : Text), rest = c :: tail ∧ text = before ++ c :: tail
      ∧ (Location.before text rest).offset = before.utf8Length
      ∧ (Location.before text rest).offset < text.utf8Length ∧ isWhitespace c = false := by
  obtain ⟨before, rfl⟩ := inside
  obtain ⟨c, tail, rfl⟩ := List.exists_cons_of_ne_nil nonempty
  exact ⟨before, c, tail, rfl, rfl, Location.before_offset before _,
    Location.before_offset_lt before c tail, (Text.stops_cons ..).mp noSpace⟩

/-- The wording for one closing brace or more is not that for a rule that does not apply. -/
theorem closingBraces_message_ne (blocks : Nat) :
    (Expectation.closingBraces (blocks + 1)).message ≠ Expectation.validSyntax.message := by
  intro same
  have first : (Expectation.closingBraces (blocks + 1)).message.head? = some '\x60' := by
    cases blocks <;> rfl
  rw [same] at first
  exact absurd first (by decide)

/-- The error points at a character of the text that is no white space. Either the declarations
before it are read at the top level and no further one starts there, or blocks are open there and the
character is not the closing brace that is expected for each of them. -/
def PointsAtUnexpected (text : Text) (place : Location) (expected : Expectation) : Prop :=
  ∃ (before : Text) (c : Char) (rest : Text), text = before ++ c :: rest
    ∧ place.offset = before.utf8Length ∧ place.offset < text.utf8Length
    ∧ isWhitespace c = false ∧ expected.message ≠ "valid syntax".toList
    ∧ ((expected.message = "a property, block or comment".toList
          ∧ ∃ found behind, declarations text = .matched found behind
            ∧ behind.trimStart = c :: rest)
        ∨ ∃ k, 1 ≤ k ∧ c ≠ '}'
          ∧ expected.message = Text.join " or ".toList (List.replicate k "`\x7d`".toList))

/-- A syntax error of a whole template says what was expected at its place, and never only that the
syntax is not valid. -/
theorem parse_unexpected {text : Text} {place : Location} {expected : Expectation}
    (h : parse text = .error (.unexpected place expected)) :
    PointsAtUnexpected text place expected := by
  rw [parse_error_iff, parseAll] at h
  split at h
  · -- The declarations are read, and something else follows them.
    next found behind matched =>
    split at h
    · cases h
    · next more =>
      rw [List.isEmpty_iff] at more
      have inside : behind.trimStart <:+ text :=
        (List.dropWhile_suffix _).trans
          (Rule.Descends.of_matched (show inner.declarations text = _ from matched))
      obtain ⟨before, c, rest, shape, same, offset, less, noSpace⟩ :=
        exists_character inside more (Text.stops_trimStart behind)
      cases h
      exact ⟨before, c, rest, same, offset, less, noSpace, by decide,
        .inl ⟨rfl, found, behind, matched, shape⟩⟩
  · -- Declarations never mismatch.
    next place mismatch =>
    exact absurd ⟨place, mismatch⟩ (Rule.not_mismatches declarations text)
  · -- The only fault that is no missing end is the one of a body.
    next rest fault committed =>
    obtain ⟨before, inside, known⟩ := (fits_inner text).2 rest fault committed
    cases fault with
    | unterminated construct => cases h
    | unclosedBody bodies =>
      rw [Except.error.injEq, ParseError.ofFault] at h
      split at h
      · cases h
      · next more =>
        rw [List.isEmpty_iff] at more
        obtain ⟨positive, noSpace, noBrace⟩ := known
        obtain ⟨before, c, tail, shape, same, offset, less, apart⟩ :=
          exists_character ⟨before, inside.symm⟩ more noSpace
        cases h
        obtain ⟨others, rfl⟩ := Nat.exists_eq_add_of_le' positive
        refine ⟨before, c, tail, same, offset, less, apart, closingBraces_message_ne others,
          .inr ⟨others + 1, positive, ?_, rfl⟩⟩
        rintro rfl
        exact noBrace (by rw [shape]; rfl)

/-- A word inside two blocks that starts no declaration. -/
theorem parse_unexpected_word :
    parse "a \x7bb \x7bc".toList = .error (.unexpected ⟨6, 1, 7⟩ (.closingBraces 2))
      ∧ PointsAtUnexpected "a \x7bb \x7bc".toList ⟨6, 1, 7⟩ (.closingBraces 2) :=
  ⟨by cbv, parse_unexpected (by cbv)⟩

end HclSyntax
