import HclSyntax.Grammar.Template
import HclSyntax.Proofs.Grammar.Number

/-!
# `HclSyntax.Proofs.Grammar.Tentative`: the rules that never commit

A fault comes from a quoted string, a heredoc, a bracketed comment, a for expression, or from a
bracket that is not closed. Every rule of the grammar that holds none of these is `Tentative`: where
it does not match, the next alternative is tried.
-/

set_option autoImplicit false

namespace HclSyntax.Grammar

open Rule

/-! ### Numbers, names and symbols -/

instance : Tentative numberOrBool := by
  unfold numberOrBool
  infer_instance

instance : Tentative heredocHead := by
  unfold heredocHead
  infer_instance

instance : Tentative commentStyle := by
  unfold commentStyle
  infer_instance

instance : Tentative lineComment := by
  unfold lineComment
  infer_instance

instance : Tentative identifier := by
  unfold identifier
  infer_instance

instance : Tentative equals := by
  unfold equals
  infer_instance

instance : Tentative functionNamePart := by
  unfold functionNamePart
  infer_instance

instance : Tentative functionName := by
  unfold functionName
  infer_instance

instance : Tentative callStart := by
  unfold callStart
  infer_instance

instance tentative_anyWord : ∀ words : List Text, Tentative (anyWord words)
  | [] => inferInstanceAs (Tentative fail)
  | expected :: others =>
    have := tentative_anyWord others
    inferInstanceAs (Tentative (word expected <|> anyWord others))

instance : Tentative operator := by
  unfold operator
  infer_instance

instance : Tentative endOfValue := by
  unfold endOfValue
  infer_instance

/-! ### Brackets and unquoted text -/

instance (stop : Text → Bool) : Tentative (balanced stop) where
  answers text := by
    unfold balanced Mismatches
    dsimp only
    cases balancedSplit stop 0 text with
    | some parts => exact .inr ⟨parts.1, parts.2, rfl⟩
    | none => exact .inl ⟨text, rfl⟩

instance : Tentative balancedToBracket :=
  inferInstanceAs (Tentative (balanced _))

instance : Tentative listIndex := by
  unfold listIndex
  infer_instance

instance : Tentative unquotedText := by
  unfold unquotedText
  infer_instance

instance : Tentative accessor := by
  unfold accessor
  infer_instance

instance : Tentative forKeyword := by
  unfold forKeyword
  infer_instance

instance : Tentative loopBindings := by
  rw [loopBindings_eq]
  infer_instance

instance : Tentative loopCondition := by
  unfold loopCondition
  infer_instance

/-! ### Type constraints -/

instance : Tentative primitiveName := by
  unfold primitiveName
  infer_instance

instance : Tentative primitiveType := by
  unfold primitiveType
  infer_instance

instance (name : Text) : Tentative (typeWord name) := by
  unfold typeWord
  infer_instance

end HclSyntax.Grammar
