import HclSyntax.Grammar.Expression
import HclSyntax.Proofs.Grammar.Name
import HclSyntax.Proofs.Grammar.Operator
import HclSyntax.Proofs.Grammar.UnquotedText
import HclSyntax.Proofs.Grammar.Verbatim

/-!
# `HclSyntax.Proofs.Grammar.Follow`: what may follow a term

A term with no bracket or quote at its end ends where the characters it is made of end, and a word in
front of a parenthesis is the name of a call. `TermEnd` says that a text is one that the printer puts
behind a term and that keeps such a term apart from what comes next. `ExpressionEnd` says in addition
that no operator follows, which would go on with the expression.

The other side are the characters a term starts with (`startsTerm`): they are told apart from white
space, commas, closing brackets and the markers of comments.
-/

set_option autoImplicit false

namespace HclSyntax.Grammar

open Rule

/-! ### Behind a term -/

/-- The characters that stand behind a term. -/
def termEnds : List Char :=
  [' ', '\n', ',', ')', ']', '}']

/-- The text ends a term: it does not go on with the term, and it does not make a call of it. -/
def TermEnd (rest : Text) : Prop :=
  Text.Stops (fun c => !termEnds.contains c) rest ∧ (Text.trimInline rest).head? ≠ some '('

/-- A class with none of the characters that end a term stops at such an end. -/
theorem TermEnd.stops {rest : Text} (h : TermEnd rest) {accepts : Char → Bool}
    (apart : ∀ c ∈ termEnds, accepts c = false) : Text.Stops accepts rest := by
  intro c hc
  have listed : (!termEnds.contains c) = false := h.1 c hc
  exact apart c (by simpa using listed)

/-- The text starts with none but the characters that end a term. -/
theorem TermEnd.head_ne {rest : Text} (h : TermEnd rest) {c : Char} (apart : c ∉ termEnds) :
    rest.head? ≠ some c := by
  intro head
  have listed : (!termEnds.contains c) = false := h.1 c head
  exact apart (by simpa using listed)

/-- Behind a character that is no blank, nothing else of the text matters. -/
theorem termEnd_cons {c : Char} {rest : Text} (listed : c ∈ termEnds)
    (stops : Text.isInline c = false) : TermEnd (c :: rest) := by
  refine ⟨by simpa using listed, ?_⟩
  rw [Text.trimInline_of_stops ((Text.stops_cons ..).mpr stops)]
  rintro head
  obtain rfl : c = '(' := by simpa using head
  exact absurd listed (by decide)

/-- A term ends at a space, unless a parenthesis is next. -/
theorem termEnd_space {c : Char} {rest : Text} (stops : Text.isInline c = false)
    (notOpening : c ≠ '(') : TermEnd (' ' :: c :: rest) := by
  refine ⟨by simp [termEnds], ?_⟩
  have isInline : Text.isInline ' ' = true := by decide
  rw [Text.trimInline, List.dropWhile_cons_of_pos isInline,
    List.dropWhile_cons_of_neg (by simp [stops])]
  simpa using notOpening

section TermEnd

variable {rest : Text} (h : TermEnd rest)

include h

/-- An unquoted text ends there. -/
theorem TermEnd.isTextChar : Text.Stops isTextChar rest := h.stops (by decide)

/-- A name ends there. -/
theorem TermEnd.isNameChar : Text.Stops isNameChar rest := h.stops (by decide)

/-- The name of a call ends there. -/
theorem TermEnd.isCallChar : Text.Stops isCallChar rest := h.stops (by decide)

/-- No index follows. -/
theorem TermEnd.noIndex : rest.head? ≠ some '[' := h.head_ne (by decide)

/-- No accessor follows. -/
theorem TermEnd.noAccessor : accessor.Mismatches rest :=
  mismatches_accessor h.noIndex (h.head_ne (by decide))

end TermEnd

/-! ### Behind an expression -/

/-- White space as an expression skips it in front of an operator. -/
def skip (multiline : Bool) (text : Text) : Text :=
  if multiline then text.trimStart else text.trimInline

/-- What is skipped in front of an operator stands at the start of the text. -/
theorem skip_suffix (multiline : Bool) (text : Text) : skip multiline text <:+ text := by
  cases multiline <;> exact List.dropWhile_suffix _

section Operation

variable {inner : Inner}

/-- A term, and behind it what is accessed in it. -/
theorem operandWithAccessor_matched {text behind rest : Text} {node : Node} {found : Option Text}
    (reads : operand inner text = .matched node behind) (takes : takesAccessor node = true)
    (access : optional accessor behind = .matched found rest) :
    operandWithAccessor inner text
      = .matched (node :: (found.map Node.unquotedString).toList) rest := by
  rw [operandWithAccessor_eq, bind_of_matched reads, if_pos takes, bind_of_matched access]
  rfl

/-- Behind a term that takes no accessor none is looked for. -/
theorem operandWithAccessor_bare {text rest : Text} {node : Node}
    (reads : operand inner text = .matched node rest) (takes : takesAccessor node = false) :
    operandWithAccessor inner text = .matched [node] rest := by
  rw [operandWithAccessor_eq, bind_of_matched reads, if_neg (by simp [takes])]
  rfl

/-- One operator and the term after it. -/
def operation (inner : Inner) (multiline : Bool) : Rule (List Node) := do
  if multiline then whitespace else inlineWhitespace
  let symbol ← operator
  whitespace
  let terms ← unaryOperand inner
  return .mathSymbol symbol :: terms

/-- White space is skipped first. -/
theorem operation_apply (inner : Inner) (multiline : Bool) (text : Text) :
    operation inner multiline text
      = (operator >>= fun symbol => whitespace >>= fun _ => unaryOperand inner >>= fun operands =>
          pure (.mathSymbol symbol :: operands)) (skip multiline text) := by
  cases multiline <;> rfl

/-- An operation is an operator and the term behind it, with white space between them. -/
theorem operation_matched_iff {multiline : Bool} {text rest : Text} {terms : List Node} :
    operation inner multiline text = .matched terms rest
      ↔ ∃ symbol behind operands, operator (skip multiline text) = .matched symbol behind
          ∧ unaryOperand inner (Text.trimStart behind) = .matched operands rest
          ∧ terms = .mathSymbol symbol :: operands := by
  rw [operation_apply]
  simp only [bind_matched_iff, whitespace_matched_iff, pure_matched_iff]
  constructor
  · rintro ⟨symbol, behind, found, _, _, rfl, operands, _, more, rfl, rfl⟩
    exact ⟨symbol, behind, operands, found, more, rfl⟩
  · rintro ⟨symbol, behind, operands, found, more, rfl⟩
    exact ⟨symbol, behind, found, (), _, rfl, operands, rest, more, rfl, rfl⟩

/-- An expression is a term and operations, as far as there are any. -/
theorem expressionTerms_eq (rules : Inner) (multiline : Bool) :
    expressionTerms rules multiline = unaryOperand rules >>= fun first =>
      many (operation rules multiline) >>= fun others => pure (first ++ others.flatten) := rfl

end Operation

/-- The text ends an expression. -/
def ExpressionEnd (multiline : Bool) (rest : Text) : Prop :=
  TermEnd rest ∧ Text.Stops startsOperator (skip multiline rest)

/-- No operator follows an expression. -/
theorem ExpressionEnd.noOperator {multiline : Bool} {rest : Text}
    (h : ExpressionEnd multiline rest) : operator.Mismatches (skip multiline rest) :=
  mismatches_operator h.2

end HclSyntax.Grammar
