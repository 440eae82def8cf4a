import HclSyntax.Proofs.Grammar.Start

/-!
# `HclSyntax.Proofs.RoundTrip.Faithful`: trees whose printed form says what they are

Not every tree of the grammar is told by its printed form. `Faithful` lists, kind by kind, what a node
needs for that; each condition looks at the node itself and a little of what is inside it, but for
the two on the value of a property, which say that no other kind of declaration takes it (`Untyped`
and `Unlabelled`). A compact tree has no comments that end with their line, since it is printed
without lines.

The module also says what may stand behind a printed node: `OperandEnd`, `LineEnd`, `ElementEnd` and
`DeclarationEnd`.
-/

set_option autoImplicit false

namespace HclSyntax

open Grammar Rule

namespace Node

/-! ### Terms -/

/-- Whether a term is a minus sign. -/
def isMinus : Node → Bool
  | .mathSymbol text => text == ['-']
  | _ => false

/-- Whether a term is a number without a sign. -/
def isUnsigned : Node → Bool
  | .numberOrBool text => decide (IsNumber text) && text.head? != some '-'
  | _ => false

/-- Whether a minus sign stands as the sign of a number that has none: the two print as one number.
`first` says that a sign may stand at the start of the terms. -/
def bindsSign : Bool → List Node → Bool
  | _, [] => false
  | first, term :: rest =>
    (first && term.isMinus && rest.head?.any isUnsigned) || bindsSign term.isSymbol rest

/-- If no sign binds a number in some terms, none does in those at the front. -/
theorem bindsSign_front {first : Bool} {front back : List Node}
    (h : bindsSign first (front ++ back) = false) : bindsSign first front = false := by
  induction front generalizing first with
  | nil => rfl
  | cons term front ih =>
    rw [List.cons_append, bindsSign, Bool.or_eq_false_iff] at h
    rw [bindsSign, ih h.2, Bool.or_false]
    cases front with
    | nil => simp
    | cons => exact h.1

/-- Nor does one in those behind an operator. -/
theorem bindsSign_back {first : Bool} {front back : List Node} {symbol : Text}
    (h : bindsSign first (front ++ .mathSymbol symbol :: back) = false) :
    bindsSign true back = false := by
  induction front generalizing first with
  | nil => exact (Bool.or_eq_false_iff.mp h).2
  | cons term front ih => exact ih (Bool.or_eq_false_iff.mp h).2

/-! ### Words -/

/-- The word `for` in front of white space starts a for expression. -/
def forWord : Text := "for".toList

/-- Whether a list of these elements would be read as a for expression. -/
def elementsStartFor (compact : Bool) : List Node → Bool
  | [.unquotedString text] => !compact && text == forWord
  | .unquotedExpression (.unquotedString text :: _) :: _ => text == forWord
  | _ => false

/-- Whether an entry would make a for expression of its map. -/
def startsFor : Node → Bool
  | .block header _ => !header.isDynamic && header.name == .bare forWord
  | .property _ name _ => name == .bare forWord
  | _ => false

end Node

/-- Whether the name of a block with a label would be read as the word `dynamic`. -/
def BlockHeader.becomesDynamic (header : BlockHeader) : Bool :=
  header.name == .bare "dynamic".toList && !header.isDynamic && header.label.isSome

namespace Grammar

/-- The texts in a header have no template sequence that never ends. -/
structure HeaderEnds (header : BlockHeader) : Prop where
  name : NameEnds header.name
  label : ∀ label ∈ header.label, label.sequencesEnd = true
  typeLabel : ∀ label ∈ header.typeLabel, label.sequencesEnd = true

instance (header : BlockHeader) : Decidable (HeaderEnds header) :=
  decidable_of_iff (NameEnds header.name ∧ (∀ label ∈ header.label, label.sequencesEnd = true)
      ∧ ∀ label ∈ header.typeLabel, label.sequencesEnd = true)
    ⟨fun ⟨name, label, typeLabel⟩ => ⟨name, label, typeLabel⟩,
      fun ⟨name, label, typeLabel⟩ => ⟨name, label, typeLabel⟩⟩

/-! ### Behind a node -/

/-- The text ends a number or boolean. An index may follow it. -/
def LiteralEnd (rest : Text) : Prop :=
  Text.Stops (fun c => isNameChar c || c == ':') rest ∧ (Text.trimInline rest).head? ≠ some '('

/-- The text may stand behind an operand; behind brackets and quotes any text may. -/
def OperandEnd : Node → Text → Prop
  | .numberOrBool _, rest => LiteralEnd rest
  | .unquotedString _, rest => TermEnd rest
  | _, _ => True

/-- The text keeps the line breaks a node needs in the block layout. -/
structure LineEnd (layout : Layout) (node : Node) (rest : Text) : Prop where
  heredoc : layout.isCompact = false → node.endsInHeredoc = true → ClosesLine rest
  comment : layout.isCompact = false → node.isLineComment = true → Text.Stops (· != '\n') rest

/-- The text may stand behind an element. -/
structure ElementEnd (layout : Layout) (node : Node) (rest : Text) : Prop extends
    LineEnd layout node rest where
  value : node.isComment = false → ExpressionEnd true rest

/-- The characters that stand behind a declaration. -/
def declarationEnds : List Char :=
  [',', '\n', '}']

/-- The text may stand behind a declaration. In the block layout it starts a new line. -/
structure DeclarationEnd (layout : Layout) (rest : Text) : Prop where
  ends : Text.Stops (fun c => !declarationEnds.contains c) rest
  noBody : rest.trimStart.head? ≠ some '{'
  line : layout.isCompact = false → Text.Stops (· != '\n') rest

/-- A value that is not read as a type constraint of its own. -/
def Untyped (compact : Bool) (value : Node) : Prop :=
  ∀ layout : Layout, layout.isCompact = compact → ∀ rest, DeclarationEnd layout rest →
    (typeConstraint >>= fun _ => endOfValue).Mismatches (value.valueForm layout ++ rest)

/-- A value that is not read as the label of a block and its body. -/
def Unlabelled (compact : Bool) (value : Node) : Prop :=
  ∀ layout : Layout, layout.isCompact = compact → ∀ rest, DeclarationEnd layout rest →
    (label >>= fun _ => blockBody inner).Mismatches (value.valueForm layout ++ rest)

/-! ### Nodes -/

/-- The printed form of a node tells the node from others, in one of the two layouts. -/
def Faithful (compact : Bool) : Node → Prop
  | .block header _ => HeaderEnds header ∧ header.becomesDynamic = false
  | .comment _ _ => compact = false
  | .string content => content.sequencesEnd = true
  | .unquotedString text => ¬ IsBoolean text
  | .unquotedExpression terms =>
    Node.bindsSign true terms = false
      ∧ (compact = false → ∀ term ∈ terms.dropLast,
          term.endsInHeredoc = true → term.isHeredoc = true)
  | .list elements => Node.elementsStartFor compact elements = false
  | .map entries => entries.head?.any Node.startsFor = false
  | .function _ arguments =>
    compact = false → Node.onOneLine arguments = true →
      ∀ argument ∈ arguments.dropLast, argument.endsInHeredoc = false
  | .property kind name value =>
    NameEnds name ∧ (kind ≠ .type → Untyped compact value ∧ Unlabelled compact value)
  | _ => True

end Grammar

end HclSyntax
