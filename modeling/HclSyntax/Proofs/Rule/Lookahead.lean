import HclSyntax.Proofs.Rule.Outcome

/-!
# `HclSyntax.Proofs.Rule.Lookahead`: rules that look one character ahead

Most rules that give back the text they take decide where to end by one character of what follows.
`Rule.LooksAhead stop` says so: what the rule takes from some text it takes again before any text
that goes on with the same character, or with none of the class `stop`. The property passes to
repetition (`LooksAhead.many`), where the first characters of the pieces stay what they were.
-/

set_option autoImplicit false

namespace HclSyntax

/-- A text that goes on like one where a class stops, or where it stops itself. -/
theorem Text.Stops.follow {accepts : Char → Bool} {rest other : Text} (stops : Stops accepts rest)
    (follows : other.head? = rest.head? ∨ Stops accepts other) : Stops accepts other := by
  rcases follows with same | apart
  · exact fun c hc => stops c (same ▸ hc)
  · exact apart

namespace Rule

/-- A rule that gives back what it takes and looks at most one character ahead of it. -/
def LooksAhead (rule : Rule Text) (stop : Char → Bool) : Prop :=
  ∀ {text piece rest : Text}, rule text = .matched piece rest →
    text = piece ++ rest ∧ piece ≠ []
      ∧ ∀ other : Text, other.head? = rest.head? ∨ Text.Stops stop other →
          rule (piece ++ other) = .matched piece other

/-- What the repetition of such a rule takes it takes again before any text that ends it. -/
theorem LooksAhead.many {rule : Rule Text} {stop : Char → Bool} (ahead : rule.LooksAhead stop)
    {text rest : Text} {pieces : List Text} (h : many rule text = .matched pieces rest) :
    text = pieces.flatten ++ rest
      ∧ ∀ other : Text, Text.Stops stop other → rule.Mismatches other →
          many rule (pieces.flatten ++ other) = .matched pieces other := by
  induction h using many_induction with
  | ends => exact ⟨rfl, fun other _ ends => many_of_mismatches ends⟩
  | @element _ _ _ others found _ _ ih =>
    obtain ⟨rfl, nonempty, again⟩ := ahead found
    obtain ⟨rfl, repeats⟩ := ih
    refine ⟨by simp, fun other stops ends => ?_⟩
    rw [List.flatten_cons, List.append_assoc]
    refine many_of_matched (again _ ?_) ?_ (repeats other stops ends)
    -- Behind the first piece stands the next one, with the character that stood there before, or
    -- what ends the repetition.
    · cases hothers : others.flatten with
      | nil => exact .inr (by simpa using stops)
      | cons c tail => exact .inl rfl
    · have := List.length_pos_iff.mpr nonempty
      simp only [List.length_append]
      omega

end Rule

end HclSyntax
