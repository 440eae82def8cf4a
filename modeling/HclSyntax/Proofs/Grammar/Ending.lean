import HclSyntax.Proofs.Grammar.Follow
import HclSyntax.Proofs.Grammar.Start
import HclSyntax.Proofs.Rule.Ending

/-!
# `HclSyntax.Proofs.Grammar.Ending`: terms do not end with white space

A term ends with a bracket, a quote, the marker of a heredoc or a character of a number, name or
unquoted text, whatever white space stands inside it (`Tight (operand rules)`). So does an accessor.
-/

set_option autoImplicit false

set_option synthInstance.maxSize 100000

namespace HclSyntax.Grammar

open Rule

/-! ### Literals and text -/

/-- A character of texts is no white space. -/
theorem isWhitespace_of_isTextChar {c : Char} (h : isTextChar c = true) : isWhitespace c = false :=
  (isTextChar_iff.mp h).2

/-- A character of numbers is no white space. -/
theorem isWhitespace_of_isNumberChar {c : Char} (h : isNumberChar c = true) :
    isWhitespace c = false := by
  simp only [isNumberChar, Bool.or_eq_true, beq_iff_eq] at h
  rcases h with (continues | rfl) | rfl
  · exact isWhitespace_of_isTextChar (isTextChar_of_continuesNumber continues)
  · decide
  · decide

instance : Tight quotedString where
  ends {text _ _} h := by
    unfold quotedString at h
    split at h
    · cases h
    · next c inside =>
      split at h
      · split at h
        · next span after closes =>
          cases h
          obtain ⟨front, same⟩ := List.getLast?_eq_some_iff.mp (Text.getLast?_of_close closes rfl)
          refine ⟨c :: front, '"', ?_, by decide⟩
          rw [← Text.close_append closes, same]
          simp
        · cases h
      · cases h

instance : Tight number where
  ends h := by
    obtain ⟨rfl, shape, -⟩ := number_shape h
    obtain ⟨c, more, rfl, -⟩ := (isNumber_of_matched h).starts
    exact endsBehind_append (by simp)
      (fun c hc => isWhitespace_of_isNumberChar (isNumberChar_of_shape shape c hc)) _

instance : Tight boolean where
  ends h := by
    obtain ⟨rfl, -⟩ := boolean_matched_iff.mp h
    have word := isBoolean_of_matched h
    obtain ⟨c, more, rfl, -⟩ := word.starts
    exact endsBehind_append (by simp) (fun c hc => isWhitespace_of_isAlphanumeric
      (isAlphanumeric_of_isAlphabetic (isAlphabetic_of_isBoolean word c hc))) _

instance : Tight scalar := by
  unfold scalar numberOrBool
  infer_instance

instance : Tight heredoc where
  ends {_ _ doc} h := by
    obtain ⟨behind, head, lines⟩ := heredoc_matched_iff.mp h
    obtain ⟨-, -, nonempty, chars, -, -⟩ := heredocHead_matched_iff.mp head
    obtain ⟨-, indent, -, rfl⟩ := heredocBody_shape nonempty lines
    -- The marker that closes it comes last.
    have marker := endsBehind_append nonempty
      (fun c hc => isWhitespace_of_isMarkerChar (chars c hc))
    exact ((marker _).of_suffix ⟨doc.body ++ indent, by simp⟩).of_suffix (Descends.of_matched head)

instance : Tight listIndex := by
  have := tight_char (c := ']') (by decide)
  unfold listIndex
  infer_instance

instance : Tight unquotedText := by
  have first : Tight (charWhere fun c => isTextChar c && c != '.' && c != '*') :=
    tight_charWhere fun c accepted => isWhitespace_of_isTextChar (by
      simp only [Bool.and_eq_true] at accepted
      exact accepted.1.1)
  have run : Tight (takeWhile1 isTextChar) := tight_takeWhile1 fun c => isWhitespace_of_isTextChar
  unfold unquotedText
  infer_instance

instance : Tight accessor := by
  have point := tight_char (c := '.') (by decide)
  have name : Tidy (takeWhile isTextChar) := tidy_takeWhile fun c => isWhitespace_of_isTextChar
  unfold accessor
  infer_instance

/-! ### Brackets -/

/-- A closing bracket ends with itself. -/
theorem tight_closing {bracket : Char} (notSpace : isWhitespace bracket = false)
    (construct : Construct) : Tight (closing bracket construct) where
  ends {text _ _} h := by
    have closes := closing_matched_iff.mp h
    obtain ⟨space, -, split⟩ := Text.trimStart_split text
    exact ⟨space, bracket, by rw [← closes, ← split], notSpace⟩

/-- A for expression ends with its closing bracket. -/
theorem tight_forLoop (openingBracket : Char) {closingBracket : Char}
    (notSpace : isWhitespace closingBracket = false) :
    Tight (forLoop openingBracket closingBracket) := by
  have := tight_closing notSpace .forExpression
  unfold forLoop
  infer_instance

/-- So do the elements of a bracket. -/
theorem tight_elements {rules : Inner} [Descends rules.value] {bracket : Char}
    (notSpace : isWhitespace bracket = false) (construct : Construct) :
    Tight (elements rules bracket construct) := by
  have := tight_closing notSpace construct
  unfold elements
  infer_instance

/-- A term does not end with white space. -/
instance {rules : Inner} [Descends rules.value] [Descends rules.declarations] :
    Tight (operand rules) := by
  have call : Tight (elements rules ')' .functionCall) := tight_elements (by decide) _
  have group : Tight (elements rules ')' .parenthesized) := tight_elements (by decide) _
  have list : Tight (elements rules ']' .list) := tight_elements (by decide) _
  have map : Tight (closing '}' .map) := tight_closing (by decide) _
  have object : Tight forObject := tight_forLoop '{' (by decide)
  have tuple : Tight forList := tight_forLoop '[' (by decide)
  unfold operand functionCall parenthesized Grammar.list Grammar.map
  infer_instance

end HclSyntax.Grammar
