import HclSyntax.Parse

/-!
# `HclSyntax.Proofs.Parse.Basic`: what it means that a template is read

A template is read when its declarations are and nothing but white space is left
(`declarations_of_parse`, `parse_of_declarations`); when it is not, the error is the one of reading
its declarations (`parse_error_iff`).
-/

set_option autoImplicit false

namespace HclSyntax

open Grammar

/-- The declarations of a template that is read are what the grammar reads. -/
theorem declarations_of_parse {text : Text} {document : Document} (h : parse text = .ok document) :
    ∃ rest, declarations text = .matched document.declarations rest ∧ rest.trimStart = [] := by
  unfold parse parseAll at h
  split at h
  · next found rest matched =>
    split at h
    · next empty =>
      cases h
      exact ⟨rest, matched, List.isEmpty_iff.mp empty⟩
    · cases h
  · cases h
  · cases h

/-- A template whose declarations leave nothing but white space is read. -/
theorem parse_of_declarations {text rest : Text} {found : List Node}
    (h : declarations text = .matched found rest) (blank : rest.trimStart = []) :
    parse text = .ok ⟨found⟩ := by
  have all : parseAll declarations .declaration text text = .ok found := by
    unfold parseAll
    rw [h]
    exact if_pos (List.isEmpty_iff.mpr blank)
  rw [parse, all]
  rfl

/-- The error of a whole template comes from reading its declarations. -/
theorem parse_error_iff {text : Text} {cause : ParseError} :
    parse text = .error cause ↔ parseAll declarations .declaration text text = .error cause := by
  unfold parse
  cases parseAll declarations .declaration text text <;> simp [Except.map]

end HclSyntax
