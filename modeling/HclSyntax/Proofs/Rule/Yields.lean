import HclSyntax.Proofs.Rule.Outcome

/-!
# `HclSyntax.Proofs.Rule.Yields`: what rules give

`Rule.Yields` says that every value a rule matches with has some property. The lemmas follow the
combinators, so that a property of what a rule of the grammar gives is put together as the rule
itself is.
-/

set_option autoImplicit false

namespace HclSyntax.Rule

variable {α β : Type}

/-- Every value the rule matches with has the property. -/
structure Yields (rule : Rule α) (holds : α → Prop) : Prop where
  of_matched {text : Text} {value : α} {rest : Text} (h : rule text = .matched value rest) :
    holds value

/-- What a rule yields is what holds of the values of its matches. -/
theorem yields_iff {rule : Rule α} {holds : α → Prop} :
    rule.Yields holds ↔ ∀ text value rest, rule text = .matched value rest → holds value := by
  constructor
  · intro h text value rest matched
    exact h.of_matched matched
  · exact fun h => ⟨fun matched => h _ _ _ matched⟩

/-- A rule that takes nothing yields its value. -/
theorem Yields.pure {value : α} {holds : α → Prop} (h : holds value) :
    (pure value : Rule α).Yields holds := by
  refine ⟨fun matched => ?_⟩
  obtain ⟨rfl, -⟩ := pure_matched_iff.mp matched
  exact h

/-- A sequence yields what its second rule does, given what the first yields. -/
theorem Yields.bind {first : Rule α} {next : α → Rule β} {given : α → Prop} {holds : β → Prop}
    (h : first.Yields given) (hnext : ∀ value, given value → (next value).Yields holds) :
    (first >>= next).Yields holds := by
  refine ⟨fun matched => ?_⟩
  obtain ⟨found, behind, hfound, hvalue⟩ := bind_matched_iff.mp matched
  exact (hnext found (h.of_matched hfound)).of_matched hvalue

/-- What comes first may be left out of the account. -/
theorem Yields.behind {first : Rule α} {next : α → Rule β} {holds : β → Prop}
    (hnext : ∀ value, (next value).Yields holds) : (first >>= next).Yields holds := by
  have any : first.Yields fun _ => True := ⟨fun _ => trivial⟩
  exact any.bind fun value _ => hnext value

/-- Alternatives yield what each of them does. -/
theorem Yields.orElse {first second : Rule α} {holds : α → Prop} (hfirst : first.Yields holds)
    (hsecond : second.Yields holds) : (first <|> second).Yields holds := by
  refine ⟨fun matched => ?_⟩
  rcases orElse_matched_iff.mp matched with h | ⟨-, h⟩
  · exact hfirst.of_matched h
  · exact hsecond.of_matched h

/-- A repetition yields several of what its rule yields. -/
theorem Yields.many {rule : Rule α} {holds : α → Prop} (h : rule.Yields holds) :
    (many rule).Yields fun values => ∀ value ∈ values, holds value :=
  ⟨fun matched => forall_mem_of_many h.of_matched matched⟩

/-- A body yields what its contents do. -/
theorem Yields.body {rule : Rule α} {holds : α → Prop} (h : rule.Yields holds) :
    (body rule).Yields holds := by
  refine ⟨fun {text value rest} matched => ?_⟩
  unfold Rule.body at matched
  split at matched <;> cases matched
  next found => exact h.of_matched found

/-- Less may be said of what a rule yields. -/
theorem Yields.mono {rule : Rule α} {holds weaker : α → Prop} (h : rule.Yields holds)
    (weaken : ∀ value, holds value → weaker value) : rule.Yields weaker :=
  ⟨fun matched => weaken _ (h.of_matched matched)⟩

end HclSyntax.Rule
