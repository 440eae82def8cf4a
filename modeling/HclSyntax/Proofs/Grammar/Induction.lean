import HclSyntax.Proofs.Grammar.Recursion

/-!
# `HclSyntax.Proofs.Grammar.Induction`: induction on the text that a rule reads

`value_eq`, `declarations_eq` and `typeConstraint_eq` say that the rules of the grammar are read over
themselves. To prove something of every answer they give, it is enough to prove it over any rules for
what stands inside brackets that already have it. `inner_induction` and `typeConstraint_induction`
are these two inductions; the length of the text, on which they run, does not show in them.

The rules that the step is asked for are the real ones on shorter texts. On all others they fall
back to an answer that needs no argument: there is no value, and there are no declarations.
-/

set_option autoImplicit false

namespace HclSyntax.Grammar

open Rule

/-- The rule on texts shorter than the bound, and another one on all others. -/
def cutOff {α : Type} (bound : Nat) (rule fallback : Rule α) : Rule α :=
  fun text => if text.length < bound then rule text else fallback text

instance {α : Type} (bound : Nat) (rule fallback : Rule α) :
    AgreesBelow bound (cutOff bound rule fallback) rule :=
  ⟨fun short => by simp [cutOff, short]⟩

instance {α : Type} (bound : Nat) (rule fallback : Rule α) [Descends rule] [Descends fallback] :
    Descends (cutOff bound rule fallback) where
  suffix text := by
    unfold cutOff
    split <;> exact Descends.suffix text

/-- What holds of every answer to a shorter text and of every answer of the fallback holds of every
answer of the rule that is cut off. -/
theorem cutOff_answers {α : Type} {bound : Nat} {rule fallback : Rule α}
    {holds : Text → Reply α → Prop} (below : ∀ text, text.length < bound → holds text (rule text))
    (falls : ∀ text, holds text (fallback text)) (text : Text) :
    holds text (cutOff bound rule fallback text) := by
  unfold cutOff
  split
  · next short => exact below text short
  · exact falls text

/-- The rules inside brackets on texts shorter than the bound. On others there is no value and there
are no declarations. -/
def Inner.below (bound : Nat) : Inner where
  value := cutOff bound inner.value fail
  declarations := cutOff bound inner.declarations (pure [])

instance (bound : Nat) : Descends (Inner.below bound).value :=
  inferInstanceAs (Descends (cutOff _ _ _))

instance (bound : Nat) : Descends (Inner.below bound).declarations :=
  inferInstanceAs (Descends (cutOff _ _ _))

instance (bound : Nat) : AgreesBelow bound (Inner.below bound).value inner.value :=
  inferInstanceAs (AgreesBelow bound (cutOff _ _ _) _)

instance (bound : Nat) : AgreesBelow bound (Inner.below bound).declarations inner.declarations :=
  inferInstanceAs (AgreesBelow bound (cutOff _ _ _) _)

/-- Whatever the rules for values and declarations keep from the rules inside brackets holds of every
answer of `value` and `declarations`. -/
theorem inner_induction (ofValue : Text → Reply Node → Prop)
    (ofDeclarations : Text → Reply (List Node) → Prop)
    (noValue : ∀ text, ofValue text (.mismatch text))
    (noDeclarations : ∀ text, ofDeclarations text (.matched [] text))
    (step : ∀ rules : Inner, Descends rules.value → Descends rules.declarations →
      (∀ text, ofValue text (rules.value text)) →
      (∀ text, ofDeclarations text (rules.declarations text)) →
        ∀ text, ofValue text (valueOver rules text)
          ∧ ofDeclarations text (declarationsOver rules text))
    (text : Text) : ofValue text (value text) ∧ ofDeclarations text (declarations text) := by
  induction length : text.length using Nat.strongRecOn generalizing text with
  | _ n ih =>
    have short {shorter : Text} (h : shorter.length < text.length) := ih _ (length ▸ h) shorter rfl
    have same := step (.below text.length) inferInstance inferInstance
      (cutOff_answers (fun _ less => (short less).1) noValue)
      (cutOff_answers (fun _ less => (short less).2) noDeclarations) text
    -- The rules over one another only ask shorter texts, where the rules that were cut off agree
    -- with the real ones.
    have reads : valueOver (.below text.length) text = value text :=
      (AgreesBelow.agree (Nat.lt_succ_self _)).trans (value_eq text).symm
    have lists : declarationsOver (.below text.length) text = declarations text :=
      (AgreesBelow.agree (Nat.lt_succ_self _)).trans (declarations_eq text).symm
    rwa [reads, lists] at same

/-- Whatever the rule for type constraints keeps from the rule for the constraints inside holds of
every answer of `typeConstraint`. -/
theorem typeConstraint_induction (holds : Text → Reply Node → Prop)
    (none : ∀ text, holds text (.mismatch text))
    (step : ∀ rule : Rule Node, Descends rule → (∀ text, holds text (rule text)) →
      ∀ text, holds text (typeConstraintOver rule text))
    (text : Text) : holds text (typeConstraint text) := by
  induction length : text.length using Nat.strongRecOn generalizing text with
  | _ n ih =>
    have same := step (cutOff text.length typeConstraint fail) inferInstance
      (cutOff_answers (fun shorter less => ih _ (length ▸ less) shorter rfl) none) text
    have reads : typeConstraintOver (cutOff text.length typeConstraint fail) text
        = typeConstraint text :=
      (AgreesBelow.agree (Nat.lt_succ_self _)).trans (typeConstraint_eq text).symm
    rwa [reads] at same

end HclSyntax.Grammar
