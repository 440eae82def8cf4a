import HclSyntax.Proofs.Node.Pieces
import HclSyntax.Proofs.Rule.Outcome

/-!
# `HclSyntax.Proofs.Rule.Account`: what rules do with the text they take

`Rule.Accounts keeps` says of a rule that the text of each of its matches is made of pieces and gaps
(`Covers`), and that its value keeps these pieces. Like `Rule.Yields` it is put together as the rule
is. The alternatives that are tried and given up do not show in it: a match takes the text that its
own parts take, one behind the other, and nothing of what was tried before.
-/

set_option autoImplicit false

namespace HclSyntax.Rule

variable {α β : Type}

/-- Every match takes pieces and gaps, and its value keeps the pieces. -/
structure Accounts (rule : Rule α) (keeps : α → List Piece → Prop) : Prop where
  of_matched {text rest : Text} {value : α} (h : rule text = .matched value rest) :
    ∃ span pieces, text = span ++ rest ∧ Covers pieces span ∧ keeps value pieces

/-- A rule whose value says which pieces it keeps. -/
theorem accounts_iff {rule : Rule α} {keeps : α → List Piece} :
    (rule.Accounts fun value pieces => pieces = keeps value)
      ↔ ∀ text value rest, rule text = .matched value rest →
          ∃ span, text = span ++ rest ∧ Covers (keeps value) span := by
  refine ⟨fun h text value rest matched => ?_, fun h => ⟨fun matched => ?_⟩⟩
  · obtain ⟨span, _, same, covers, rfl⟩ := h.of_matched matched
    exact ⟨span, same, covers⟩
  · obtain ⟨span, same, covers⟩ := h _ _ _ matched
    exact ⟨span, _, same, covers, rfl⟩

/-- Every match takes a gap. -/
def Skips (rule : Rule α) : Prop :=
  rule.Accounts fun _ pieces => pieces = []

/-- Every match keeps the text it takes as it is written. -/
theorem Accounts.verbatim {rule : Rule Text}
    (h : ∀ {text found rest : Text}, rule text = .matched found rest → text = found ++ rest) :
    rule.Accounts fun found pieces => pieces = [.verbatim found] :=
  ⟨fun matched => ⟨_, _, h matched, .verbatim _, rfl⟩⟩

/-- Less may be said of what a rule accounts for. -/
theorem Accounts.mono {rule : Rule α} {keeps weaker : α → List Piece → Prop}
    (h : rule.Accounts keeps) (weaken : ∀ value pieces, keeps value pieces → weaker value pieces) :
    rule.Accounts weaker := by
  refine ⟨fun matched => ?_⟩
  obtain ⟨span, pieces, same, covers, known⟩ := h.of_matched matched
  exact ⟨span, pieces, same, covers, weaken _ _ known⟩

/-! ### Sequence and choice -/

/-- A rule that takes nothing accounts for no pieces. -/
theorem Accounts.pure {value : α} {keeps : α → List Piece → Prop} (h : keeps value []) :
    (pure value : Rule α).Accounts keeps := by
  refine ⟨fun matched => ?_⟩
  obtain ⟨rfl, rfl⟩ := pure_matched_iff.mp matched
  exact ⟨[], [], rfl, .nil, h⟩

/-- The pieces of the first rule come before those of the second. -/
theorem Accounts.bind {first : Rule α} {next : α → Rule β} {given : α → List Piece → Prop}
    {keeps : β → List Piece → Prop} (hfirst : first.Accounts given)
    (hnext : ∀ value front, given value front →
      (next value).Accounts fun result back => keeps result (front ++ back)) :
    (first >>= next).Accounts keeps := by
  refine ⟨fun matched => ?_⟩
  obtain ⟨value, behind, found, more⟩ := bind_matched_iff.mp matched
  obtain ⟨a, front, rfl, hfront, known⟩ := hfirst.of_matched found
  obtain ⟨b, back, rfl, hback, result⟩ := (hnext value front known).of_matched more
  exact ⟨a ++ b, front ++ back, (List.append_assoc ..).symm, hfront.append hback, result⟩

/-- Behind a gap the second rule accounts for the pieces. -/
theorem Accounts.behind {first : Rule α} {next : α → Rule β} {keeps : β → List Piece → Prop}
    (hfirst : first.Skips) (hnext : ∀ value, (next value).Accounts keeps) :
    (first >>= next).Accounts keeps := by
  refine Accounts.bind hfirst fun value front none => ?_
  subst none
  exact hnext value

/-- Two alternatives account for what either does. -/
theorem Accounts.orElse {first second : Rule α} {keeps : α → List Piece → Prop}
    (hfirst : first.Accounts keeps) (hsecond : second.Accounts keeps) :
    (first <|> second).Accounts keeps := by
  refine ⟨fun matched => ?_⟩
  rcases orElse_matched_iff.mp matched with found | ⟨-, found⟩
  · exact hfirst.of_matched found
  · exact hsecond.of_matched found

/-- An optional rule accounts for what its rule does, or for nothing. -/
theorem Accounts.optional {rule : Rule α} {keeps : α → List Piece → Prop}
    (h : rule.Accounts keeps) :
    (optional rule).Accounts fun found pieces =>
      (∃ value, found = some value ∧ keeps value pieces) ∨ found = none ∧ pieces = [] := by
  refine ⟨fun matched => ?_⟩
  rcases optional_matched_iff.mp matched with ⟨value, rfl, found⟩ | ⟨rfl, -, rfl⟩
  · obtain ⟨span, pieces, same, covers, known⟩ := h.of_matched found
    exact ⟨span, pieces, same, covers, .inl ⟨value, rfl, known⟩⟩
  · exact ⟨[], [], rfl, .nil, .inr ⟨rfl, rfl⟩⟩

/-- A repetition keeps what its elements keep, in their order. -/
theorem Accounts.many {rule : Rule α} {keeps : α → List Piece}
    (h : rule.Accounts fun value pieces => pieces = keeps value) :
    (many rule).Accounts fun values pieces => pieces = values.flatMap keeps := by
  refine ⟨fun {text rest values} matched => ?_⟩
  induction matched using many_induction with
  | ends => exact ⟨[], [], rfl, .nil, rfl⟩
  | element found _ _ ih =>
    obtain ⟨a, front, rfl, hfront, rfl⟩ := h.of_matched found
    obtain ⟨b, back, rfl, hback, rfl⟩ := ih
    exact ⟨a ++ b, _, (List.append_assoc ..).symm, hfront.append hback, rfl⟩

/-- A body accounts for what its contents do. -/
theorem Accounts.body {rule : Rule α} {keeps : α → List Piece → Prop} (h : rule.Accounts keeps) :
    (body rule).Accounts keeps := by
  refine ⟨fun {text rest value} matched => ?_⟩
  unfold Rule.body at matched
  split at matched <;> cases matched
  next found => exact h.of_matched found

/-! ### Gaps -/

/-- White space is a gap. -/
theorem skips_whitespace : whitespace.Skips := by
  refine ⟨fun {text rest value} matched => ?_⟩
  obtain ⟨space, isSpace, same⟩ := Text.trimStart_split text
  rw [← whitespace_matched_iff.mp matched]
  exact ⟨space, [], same, .space isSpace, rfl⟩

/-- So is white space on its line. -/
theorem skips_inlineWhitespace : inlineWhitespace.Skips := by
  refine ⟨fun {text rest value} matched => ?_⟩
  rw [inlineWhitespace_apply, Reply.matched.injEq] at matched
  rw [← matched.2]
  refine ⟨text.takeWhile Text.isInline, [], List.takeWhile_append_dropWhile.symm, .space ?_, rfl⟩
  intro c hc
  have inline : Text.isInline c = true := List.mem_takeWhile_imp hc
  exact (Bool.and_eq_true_iff.mp inline).1

/-- So is a character of gaps. -/
theorem skips_char {c : Char} (gap : isGapChar c = true) : (char c).Skips := by
  refine ⟨fun matched => ?_⟩
  obtain ⟨rfl, -⟩ := char_matched_iff.mp matched
  exact ⟨[c], [], rfl, .char gap .nil, rfl⟩

/-- So is one of several such characters. -/
theorem skips_oneOf {choices : Text} (gaps : ∀ c ∈ choices, isGapChar c = true) :
    (oneOf choices).Skips := by
  refine ⟨fun {text rest c} matched => ?_⟩
  obtain ⟨rfl, listed⟩ := oneOf_matched_iff.mp matched
  exact ⟨[c], [], rfl, .char (gaps c listed) .nil, rfl⟩

/-- So is a word of gaps. -/
theorem skips_word {expected : Text} (gap : expected ∈ gapWords) : (word expected).Skips := by
  refine ⟨fun matched => ?_⟩
  obtain ⟨rfl, -⟩ := word_matched_iff.mp matched
  exact ⟨expected, [], rfl, .gapWord gap, rfl⟩

/-- Looking ahead takes nothing. -/
theorem skips_followedBy (rule : Rule α) : (followedBy rule).Skips := by
  refine ⟨fun matched => ?_⟩
  obtain ⟨-, rfl⟩ := followedBy_matched_iff.mp matched
  exact ⟨[], [], rfl, .nil, rfl⟩

/-- Nor does looking ahead for what must not follow. -/
theorem skips_notFollowedBy (rule : Rule α) : (notFollowedBy rule).Skips := by
  refine ⟨fun matched => ?_⟩
  obtain ⟨-, rfl⟩ := notFollowedBy_matched_iff.mp matched
  exact ⟨[], [], rfl, .nil, rfl⟩

/-- A gap may be missing. -/
theorem Skips.optional {rule : Rule α} (h : rule.Skips) : (optional rule).Skips := by
  refine (Accounts.optional h).mono fun _ _ known => ?_
  rcases known with ⟨_, -, rfl⟩ | ⟨-, rfl⟩ <;> rfl

end HclSyntax.Rule
