import HclSyntax.Proofs.Grammar.Follow
import HclSyntax.Proofs.Grammar.Number
import HclSyntax.Proofs.Grammar.Verbatim
import HclSyntax.Proofs.Rule.Consumption

/-!
# `HclSyntax.Proofs.Grammar.Consumption`: declarations and values take something

Every declaration starts with a name, a keyword or a comment, so it takes at least one character, and
a sequence of declarations never mismatches (`Decided declarations`): it ends where no declaration
starts. Values take something as well, and so do type constraints and accessors.
-/

set_option autoImplicit false

set_option synthInstance.maxSize 100000

namespace HclSyntax.Grammar

open Rule

instance : Consumes quotedString where
  shortens {text rest value} h := by
    unfold quotedString at h
    split at h
    · cases h
    · next c inside =>
      split at h
      · split at h
        · next span after closes =>
          cases h
          have whole := congrArg List.length (Text.close_append closes)
          simp only [List.length_append, List.length_cons] at whole ⊢
          omega
        · cases h
      · cases h

instance : Consumes identifier := by
  unfold identifier
  infer_instance

instance : Consumes propertyName := by
  unfold propertyName
  infer_instance

instance : Consumes lineComment := by
  have hash : Consumes (word CommentStyle.hash.marker) := consumes_word (by decide)
  have slashes : Consumes (word CommentStyle.doubleSlash.marker) := consumes_word (by decide)
  unfold lineComment commentStyle
  infer_instance

instance : Consumes bracketedComment where
  shortens h := by
    obtain ⟨content, -, rfl, -⟩ := bracketedComment_matched_iff.mp h
    simp only [List.length_append]
    have opens : 0 < "/*".toList.length := by decide
    omega

instance : Consumes comment :=
  inferInstanceAs (Consumes (lineComment <|> bracketedComment))

instance : Consumes blockName := by
  have word : Consumes (keyword "dynamic".toList) := consumes_keyword (by decide)
  unfold blockName
  infer_instance

/-! ### Terms -/

/-- A word that is not empty takes something, whatever the case of its letters. -/
theorem consumes_wordAnyCase {expected : Text} (nonempty : expected ≠ []) :
    Consumes (wordAnyCase expected) where
  shortens h := by
    obtain ⟨rfl, lower⟩ := wordAnyCase_matched_iff.mp h
    have := List.length_pos_iff.mpr nonempty
    rw [← lower, List.length_map] at this
    rw [List.length_append]
    omega

instance : Consumes numberOrBool := by
  have mark : Consumes (word "0x".toList) := consumes_word (by decide)
  have trueWord : Consumes (wordAnyCase "true".toList) := consumes_wordAnyCase (by decide)
  have falseWord : Consumes (wordAnyCase "false".toList) := consumes_wordAnyCase (by decide)
  unfold numberOrBool number boolean hexadecimal decimal
  infer_instance

instance : Consumes listIndex := by
  unfold listIndex
  infer_instance

instance : Consumes accessor := by
  unfold accessor
  infer_instance

instance : Consumes callStart :=
  ⟨callStart_shortens⟩

instance : Consumes heredocHead := by
  have marker : Consumes (word "<<".toList) := consumes_word (by decide)
  unfold heredocHead
  infer_instance

instance : Consumes heredoc where
  shortens h := by
    obtain ⟨behind, head, lines⟩ := heredoc_matched_iff.mp h
    obtain ⟨-, -, nonempty, -⟩ := heredocHead_matched_iff.mp head
    obtain ⟨-, indent, -, rfl⟩ := heredocBody_shape nonempty lines
    have shorter := Consumes.shortens head
    simp only [List.length_append] at shorter
    omega

/-! ### Type constraints -/

instance : Consumes primitiveName := by
  have : Consumes (word "string".toList) := consumes_word (by decide)
  have : Consumes (word "number".toList) := consumes_word (by decide)
  have : Consumes (word "bool".toList) := consumes_word (by decide)
  have : Consumes (word "any".toList) := consumes_word (by decide)
  unfold primitiveName
  infer_instance

instance {rule : Rule Node} [Descends rule] : Consumes (typeMember rule) := by
  unfold typeMember
  infer_instance

instance {rule : Rule Node} [Descends rule] : Consumes (typeConstraintOver rule) := by
  unfold typeConstraintOver collectionType objectType tupleType primitiveType
  infer_instance

instance : Consumes typeConstraint where
  shortens h := by
    rw [typeConstraint_eq] at h
    exact Consumes.shortens h

/-! ### Values and declarations -/

section Open
variable {rules : Inner} [Descends rules.value] [Descends rules.declarations]

instance : Consumes (operand rules) := by
  unfold operand functionCall parenthesized forObject forList forLoop list map scalar unquotedText
  infer_instance

instance : Consumes (operandWithAccessor rules) := by
  rw [operandWithAccessor_eq]
  infer_instance

instance : Consumes (signedOperand rules) := by
  unfold signedOperand
  infer_instance

instance : Consumes (unaryOperand rules) where
  shortens h := by
    rw [unaryOperand_eq] at h
    exact Consumes.shortens h

instance (multiline : Bool) : Descends (operation rules multiline) := by
  unfold operation
  infer_instance

instance (multiline : Bool) : Consumes (operation rules multiline) where
  shortens {text _ _} h := by
    rw [operation_apply] at h
    exact Nat.lt_of_lt_of_le (Consumes.shortens h) (skip_suffix multiline text).length_le

instance : Consumes (valueOver rules) := by
  unfold valueOver expressionTerms
  infer_instance

instance : Consumes (declaration rules) := by
  have word : Consumes (keyword "function".toList) := consumes_keyword (by decide)
  unfold declaration namedBlock typedProperty functionProperty forObjectProperty
    functionDeclaration labelledBlock typedBlock scalarProperty unquotedProperty listProperty
    mapProperty heredocProperty forListProperty assigned
  infer_instance

instance : Decided (declarationsOver rules) := by
  unfold declarationsOver
  infer_instance

end Open

instance : Consumes value where
  shortens h := by
    rw [value_eq] at h
    exact Consumes.shortens h

instance : Decided declarations where
  not_mismatches text h := by
    obtain ⟨place, found⟩ := h
    rw [declarations_eq] at found
    exact not_mismatches (declarationsOver inner) text ⟨place, found⟩

end HclSyntax.Grammar
