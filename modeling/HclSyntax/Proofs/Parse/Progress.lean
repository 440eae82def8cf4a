import Mathlib
import HclSyntax.Proofs.Grammar.Repetition
import HclSyntax.Proofs.Parse.Basic
import HclSyntax.Proofs.Text.Location

/-!
# `HclSyntax.Proofs.Parse.Progress`: reading moves on and stays in the text

A rule that matches takes something from the front of the text and a rule that fails gives up at some
place of it, so every repetition comes to an end, and the place of an error is a place of the text
(`grammar_advances`).
-/

set_option autoImplicit false

namespace HclSyntax

open Grammar

/-! ### The places of errors -/

/-- The place where an end of the text begins is a boundary. -/
theorem isBoundary_before {text rest : Text} (inside : rest <:+ text) :
    text.IsBoundary (Location.before text rest).offset := by
  obtain ⟨before, rfl⟩ := inside
  refine ⟨before, List.prefix_append before rest, ?_⟩
  show Text.utf8Length before = Text.utf8Length (before ++ rest) - Text.utf8Length rest
  rw [Text.utf8Length_append]
  omega

/-- An error is where its fault was found. -/
theorem ParseError.place_ofFault (text rest : Text) (fault : Fault) :
    (ofFault text rest fault).place = .before text rest := by
  cases fault with
  | unterminated construct => rfl
  | unclosedBody bodies =>
    rw [ofFault]
    split <;> rfl

/-- A rule that only takes from the front of an end of the text fails at a boundary of it. -/
theorem isBoundary_of_parseAll {α : Type} {rule : Rule α} [Rule.Descends rule]
    {expected : Expectation} {text start : Text} (inside : start <:+ text) {cause : ParseError}
    (h : parseAll rule expected text start = .error cause) : text.IsBoundary cause.place.offset := by
  have left := (Rule.rest_suffix rule start).trans inside
  unfold parseAll at h
  split at h
  · -- The rule matches, and something else than white space follows.
    next value rest matched =>
    rw [matched] at left
    split at h
    · cases h
    · cases h
      exact isBoundary_before ((Text.trimStart_suffix rest).trans left)
  · next rest mismatch =>
    rw [mismatch] at left
    cases h
    exact isBoundary_before left
  · next rest fault committed =>
    rw [committed] at left
    cases h
    rw [ParseError.place_ofFault]
    exact isBoundary_before left

/-! ### The grammar -/

/-- Each of these rules takes something where it matches, and leaves an end of the text where it
fails. No repetition meets an item that takes nothing. What an error points at stands behind whole
characters of the text. -/
theorem grammar_advances :
    ((declaration inner).Advances ∧ comment.Advances ∧ value.Advances
        ∧ (typeMember typeConstraint).Advances ∧ typeConstraint.Advances ∧ listIndex.Advances
        ∧ accessor.Advances)
      ∧ (∀ repetition ∈ repetitions, ∀ text, ¬ repetition.item.MeetsIdle text)
      ∧ ∀ (text : Text) (cause : ParseError),
          parse text = .error cause ∨ parseValue text = .error cause →
            text.IsBoundary cause.place.offset := by
  have ofValue : Rule.Descends value := inferInstanceAs (Rule.Descends inner.value)
  have ofDeclarations : Rule.Descends declarations :=
    inferInstanceAs (Rule.Descends inner.declarations)
  refine ⟨⟨Rule.advances _, Rule.advances _, Rule.advances _, Rule.advances _, Rule.advances _,
    Rule.advances _, Rule.advances _⟩, fun _ mem => not_meetsIdle_of_mem mem, ?_⟩
  rintro text cause (h | h)
  · exact isBoundary_of_parseAll (List.suffix_refl text) (parse_error_iff.mp h)
  · exact isBoundary_of_parseAll (Text.trimStart_suffix _) h

/-- A block that is open where the text ends, behind a name with a letter of two bytes. -/
theorem grammar_advances_block :
    parse "\"ä\" \x7b".toList = .error (.unterminated ⟨6, 1, 6⟩ .block)
      ∧ Text.IsBoundary "\"ä\" \x7b".toList 6 := by
  have failed : parse "\"ä\" \x7b".toList = .error (.unterminated ⟨6, 1, 6⟩ .block) := by cbv
  exact ⟨failed, grammar_advances.2.2 _ _ (.inl failed)⟩

end HclSyntax
