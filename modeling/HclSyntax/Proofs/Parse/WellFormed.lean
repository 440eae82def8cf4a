import Mathlib
import HclSyntax.Proofs.Grammar.Soundness
import HclSyntax.Proofs.Grammar.Start
import HclSyntax.Proofs.Parse.Basic

/-!
# `HclSyntax.Proofs.Parse.WellFormed`: the trees that texts have

The type `Node` holds more trees than a text can have. `Node.Fits` says kind by kind what a node of a
parsed tree holds, in terms of the node itself and of the kinds of the nodes directly inside it, and
`parse_wellFormed` that every node of every parsed tree does. A reader of trees may rely on it: the
value of a property is what its kind says, operator symbols stand in expressions only, and the text
of a leaf holds nothing that would end it.

The shapes of `HclSyntax.Proofs.Grammar.Shape` say more about expressions than this. `Shaped` collects
them: what stands inside a node of one of these shapes has one as well (`Shaped.inside`), so every node
of a parsed tree does (`parse_shaped`), and what is left to show is that each shape fits
(`Shaped.fits`).
-/

set_option autoImplicit false

namespace HclSyntax

open Grammar

/-! ### Kinds -/

/-- The kinds that stand in a template, in the body of a block and in a map. -/
def Kind.isDeclaration : Kind → Bool
  | .block | .comment | .multilineComment | .stringProperty | .unquotedExpressionProperty
  | .listProperty | .mapProperty | .heredocProperty | .typeProperty => true
  | _ => false

/-- The kinds of values that are single terms. -/
def Kind.isTerm : Kind → Bool
  | .string | .unquotedString | .numberOrBool | .list | .map | .forLoop | .function
  | .heredoc => true
  | _ => false

/-- The kinds of type constraints. -/
def Kind.isType : Kind → Bool
  | .primitiveType | .objectType | .mapType | .listType | .setType | .tupleType => true
  | _ => false

namespace Node

/-! ### Well-formed nodes -/

/-- A node stands in a list or between the parentheses of a call: a comment, a single term, or an
expression of two terms or more. -/
def FitsElement (node : Node) : Prop :=
  node.isComment = true ∨ node.kind.isTerm = true
    ∨ ∃ terms, node = .unquotedExpression terms ∧ 2 ≤ terms.length

/-- A node is the value of a property of this kind. -/
def FitsProperty : PropertyKind → Node → Prop
  | .string, value => value.kind = .string ∨ value.kind = .numberOrBool
  | .list, value => value.kind = .list
  | .map, value => value.kind = .map
  | .heredoc, value => value.kind = .heredoc
  | .type, value => value.kind.isType = true
  | .unquotedExpression, value => value.kind = .function ∨ value.kind = .forLoop
      ∨ ∃ terms, value = .unquotedExpression terms ∧ terms ≠ []
          ∧ ∀ term, terms = [term] → term.kind = .unquotedString

/-- What a node of a parsed tree holds, and what stands directly inside it. -/
def Fits : Node → Prop
  | .root declarations => ∀ node ∈ declarations, node.kind.isDeclaration = true
  | .block header declarations => (header.typeLabel.isSome → header.label.isSome)
      ∧ ∀ node ∈ declarations, node.kind.isDeclaration = true
  | .comment _ text => '\n' ∉ text
  | .multilineComment text => ¬ closingMarker <:+: text
  | .numberOrBool text => number text = .matched text [] ∨ boolean text = .matched text []
  | .mathSymbol text => text ∈ ['!'] :: operatorSymbols
  | .unquotedExpression terms => terms ≠ []
      ∧ ∀ term ∈ terms, term.kind = .mathSymbol ∨ term.kind.isTerm = true
  | .list elements => ∀ element ∈ elements, element.FitsElement
  | .map entries => ∀ entry ∈ entries, entry.kind.isDeclaration = true
  | .forLoop loop => (loop.opening, loop.closing) ∈ [('{', '}'), ('[', ']')]
  | .function _ arguments => ∀ argument ∈ arguments, argument.FitsElement
  | .heredoc doc => doc.marker ≠ [] ∧ (∀ c ∈ doc.marker, isMarkerChar c = true)
      ∧ (doc.body = [] ∨ ['\n'] <:+ doc.body)
      ∧ ∀ line ∈ doc.body.lines, closingLine? doc.marker line = none
  | .primitiveType name _ => name ∈ primitiveWords
  | .objectType members => ∀ member ∈ members, member.isComment = true ∨ member.kind = .typeProperty
  | .collectionType _ element => element.kind.isType = true
  | .tupleType elements => ∀ element ∈ elements, element.kind.isType = true
  | .property kind _ value => FitsProperty kind value
  | _ => True

/-- A node of a parsed tree: it fits, no template stands inside it, and a symbol does only if it is an
expression. -/
structure WellFormed (node : Node) : Prop where
  fits : node.Fits
  noRoot : ∀ part ∈ node.inside, part.kind ≠ .root
  symbols : ∀ part ∈ node.inside, part.kind = .mathSymbol → node.kind = .unquotedExpression

/-! ### What stands inside -/

/-- A node is neither a template nor an operator symbol. -/
def IsPart (node : Node) : Prop :=
  node.kind ≠ .root ∧ node.kind ≠ .mathSymbol

section IsPart

variable {node : Node}

/-- A declaration is neither a template nor an operator symbol. -/
theorem isPart_of_isDeclaration (h : node.kind.isDeclaration = true) : node.IsPart := by
  refine ⟨fun same => ?_, fun same => ?_⟩ <;> exact absurd (same ▸ h) (by decide)

/-- Nor is a term. -/
theorem isPart_of_isTerm (h : node.kind.isTerm = true) : node.IsPart := by
  refine ⟨fun same => ?_, fun same => ?_⟩ <;> exact absurd (same ▸ h) (by decide)

/-- Nor is a type constraint. -/
theorem isPart_of_isType (h : node.kind.isType = true) : node.IsPart := by
  refine ⟨fun same => ?_, fun same => ?_⟩ <;> exact absurd (same ▸ h) (by decide)

/-- Nor is a comment. -/
theorem isPart_of_isComment (h : node.isComment = true) : node.IsPart := by
  cases node with
  | comment | multilineComment => exact ⟨nofun, nofun⟩
  | _ => cases h

/-- Nor is an element. -/
theorem FitsElement.isPart (h : node.FitsElement) : node.IsPart := by
  rcases h with comment | term | ⟨terms, rfl, -⟩
  · exact isPart_of_isComment comment
  · exact isPart_of_isTerm term
  · exact ⟨nofun, nofun⟩

/-- Nor is the value of a property. -/
theorem FitsProperty.isPart {kind : PropertyKind} (h : FitsProperty kind node) : node.IsPart := by
  have term {kind : Kind} (same : node.kind = kind) (h : kind.isTerm = true) : node.IsPart :=
    isPart_of_isTerm (same ▸ h)
  cases kind with
  | string => exact h.elim (term · rfl) (term · rfl)
  | list | map | heredoc => exact term h rfl
  | type => exact isPart_of_isType h
  | unquotedExpression =>
    rcases h with call | loop | ⟨terms, rfl, -⟩
    · exact term call rfl
    · exact term loop rfl
    · exact ⟨nofun, nofun⟩

end IsPart

/-- In a node that fits symbols stand in expressions only, and no template stands inside it. -/
theorem Fits.wellFormed {node : Node} (h : node.Fits) : node.WellFormed := by
  -- Everywhere but in an expression there are parts of a template only.
  have of_parts (parts : ∀ part ∈ node.inside, part.IsPart) : node.WellFormed :=
    ⟨h, fun part mem => (parts part mem).1, fun part mem same => absurd same (parts part mem).2⟩
  cases node with
  | root => exact of_parts fun part mem => isPart_of_isDeclaration (h part mem)
  | block => exact of_parts fun part mem => isPart_of_isDeclaration (h.2 part mem)
  | list | function => exact of_parts fun part mem => (h part mem).isPart
  | map => exact of_parts fun part mem => isPart_of_isDeclaration (h part mem)
  | objectType =>
    refine of_parts fun part mem => ?_
    rcases h part mem with comment | typed
    · exact isPart_of_isComment comment
    · exact isPart_of_isDeclaration (typed ▸ rfl)
  | collectionType =>
    refine of_parts fun part mem => ?_
    obtain rfl := List.mem_singleton.mp mem
    exact isPart_of_isType h
  | tupleType => exact of_parts fun part mem => isPart_of_isType (h part mem)
  | property =>
    refine of_parts fun part mem => ?_
    obtain rfl := List.mem_singleton.mp mem
    exact FitsProperty.isPart h
  | unquotedExpression =>
    refine ⟨h, fun part mem => ?_, fun _ _ _ => rfl⟩
    rcases h.2 part mem with symbol | term
    · rw [symbol]
      decide
    · exact (isPart_of_isTerm term).1
  | _ => exact of_parts fun part mem => nomatch mem

end Node

/-! ### The shapes of the grammar fit -/

namespace Grammar

open Node

/-- A comment of the grammar does not go past its end. -/
theorem IsComment.fits {node : Node} (h : IsComment node) : node.Fits := by
  cases node with
  | comment | multilineComment => exact h
  | _ => exact absurd h id

/-- Comments may stand among declarations. -/
theorem isDeclaration_of_isComment {node : Node} (h : node.isComment = true) :
    node.kind.isDeclaration = true := by
  cases node with
  | comment | multilineComment => rfl
  | _ => cases h

/-- The body of a heredoc ends with a line feed, and no line of it closes the heredoc. -/
theorem IsHeredoc.fits {doc : Heredoc} (h : IsHeredoc doc) : (Node.heredoc doc).Fits := by
  obtain ⟨text, rest, found⟩ := h
  obtain ⟨behind, head, lines⟩ := heredoc_matched_iff.mp found
  obtain ⟨-, -, nonempty, chars, -⟩ := heredocHead_matched_iff.mp head
  obtain ⟨⟨ends, goesOn⟩, -⟩ := heredocBody_shape nonempty lines
  exact ⟨nonempty, chars, ends, goesOn⟩

/-- An operand is a single term. -/
theorem IsOperand.isTerm {node : Node} (h : IsOperand node) : node.kind.isTerm = true := by
  cases h <;> rfl

/-- A type constraint of the grammar is of the kind of one. -/
theorem IsType.isType {node : Node} (h : IsType node) : node.kind.isType = true := by
  cases h with
  | @collection collection => cases collection <;> rfl
  | _ => rfl

/-- A member of an object type is a comment or a property that is a type. -/
theorem IsMember.fits {node : Node} (h : IsMember node) :
    node.isComment = true ∨ node.kind = .typeProperty := by
  cases h with
  | comment h => exact .inl h.isComment
  | typed => exact .inr rfl

section Terms

variable {holds : Node → Prop} (operand : ∀ node, IsOperand node → holds node)
  (symbol : ∀ text ∈ ['!'] :: operatorSymbols, holds (.mathSymbol text))
  (accessor : ∀ text, IsAccessorText text → holds (.unquotedString text))

include operand symbol accessor

/-- What holds of signs and of terms with accessors holds of each of the terms. -/
theorem IsUnary.forall_mem {terms : List Node} (h : IsUnary terms) : ∀ term ∈ terms, holds term := by
  induction terms with
  | nil => exact nofun
  | cons first rest ih =>
    cases h with
    | bare first => simpa using operand _ first
    | accessed first _ text => simpa using And.intro (operand _ first) (accessor _ text)
    | @signed sign _ isSign unary =>
      have listed : [sign] ∈ ['!'] :: operatorSymbols := by rcases isSign with rfl | rfl <;> decide
      exact List.forall_mem_cons.mpr ⟨symbol _ listed, ih unary⟩

/-- What holds of operands, symbols and accessors holds of the terms of an expression. -/
theorem AreTerms.forall_mem {multiline : Bool} {terms : List Node} :
    AreTerms multiline terms → ∀ term ∈ terms, holds term
  | .one unary => unary.forall_mem operand symbol accessor
  | .more first listed _ others => List.forall_mem_append.mpr
      ⟨first.forall_mem operand symbol accessor, List.forall_mem_cons.mpr
        ⟨symbol _ (List.mem_cons_of_mem _ listed), others.forall_mem⟩⟩

end Terms

/-- Only terms and symbols stand in an expression. -/
theorem AreTerms.kinds {multiline : Bool} {terms : List Node} (h : AreTerms multiline terms) :
    ∀ term ∈ terms, term.kind = .mathSymbol ∨ term.kind.isTerm = true :=
  h.forall_mem (fun _ operand => .inr operand.isTerm) (fun _ _ => .inl rfl) fun _ _ => .inr rfl

/-- A single term stands for itself in a list; any other expression has two terms or more. -/
theorem AreTerms.fitsElement {multiline : Bool} {terms : List Node}
    (h : AreTerms multiline terms) : (ofTerms terms).FitsElement := by
  unfold ofTerms
  split
  · exact .inr (.inl h.operand.isTerm)
  · next several =>
    refine .inr (.inr ⟨terms, rfl, ?_⟩)
    match terms, several, h.ne_nil with
    | [term], several, _ => exact absurd rfl (several term)
    | _ :: _ :: _, _, _ => simp

/-- An element of the grammar may stand in a list. -/
theorem IsElement.fitsElement {node : Node} (h : IsElement node) : node.FitsElement := by
  cases h with
  | comment h => exact .inl h.isComment
  | value terms => exact terms.fitsElement

/-- The kind of a property is picked by its terms, and its value is made of them. A single term that
is no value of its own can only be unquoted text. -/
theorem AreTerms.fitsProperty {terms : List Node} (h : AreTerms false terms) (name : Name) :
    ∃ kind value, propertyOfTerms name terms = .property kind name value
      ∧ FitsProperty kind value ∧ (terms = [value] ∨ value = .unquotedExpression terms) := by
  unfold propertyOfTerms
  split
  case h_8 noList noMap noHeredoc noString noNumber noCall noLoop =>
    refine ⟨_, _, rfl, .inr (.inr ⟨terms, rfl, h.ne_nil, fun term single => ?_⟩), .inr rfl⟩
    -- A single term that is none of the other kinds is an unquoted text.
    subst single
    cases h.operand with
    | unquoted => rfl
    | call | group => exact absurd rfl (noCall _ _)
    | loop => exact absurd rfl (noLoop _)
    | list => exact absurd rfl (noList _)
    | map => exact absurd rfl (noMap _)
    | heredoc => exact absurd rfl (noHeredoc _)
    | string => exact absurd rfl (noString _)
    | numberOrBool => exact absurd rfl (noNumber _)
  all_goals exact ⟨_, _, rfl, by simp [FitsProperty, Node.kind], .inl rfl⟩

/-- A declaration of the grammar is of the kind of one. -/
theorem IsDeclaration.isDeclaration {node : Node} (h : IsDeclaration node) :
    node.kind.isDeclaration = true := by
  cases h with
  | comment h => exact isDeclaration_of_isComment h.isComment
  | block | typed => rfl
  | @property name terms _ h =>
    obtain ⟨kind, value, shape, -⟩ := h.fitsProperty name
    rw [shape]
    cases kind <;> rfl

/-- The shapes that the nodes of parsed trees have. -/
inductive Shaped : Node → Prop
  | root {declarations : List Node} (inside : ∀ node ∈ declarations, IsDeclaration node) :
    Shaped (.root declarations)
  | declaration {node : Node} (h : IsDeclaration node) : Shaped node
  | comment {node : Node} (h : IsComment node) : Shaped node
  | type {node : Node} (h : IsType node) : Shaped node
  | member {node : Node} (h : IsMember node) : Shaped node
  | operand {node : Node} (h : IsOperand node) : Shaped node
  | expression {multiline : Bool} {terms : List Node} (h : AreTerms multiline terms) :
    Shaped (.unquotedExpression terms)
  | symbol {text : Text} (listed : text ∈ ['!'] :: operatorSymbols) : Shaped (.mathSymbol text)
  | accessor {text : Text} (h : IsAccessorText text) : Shaped (.unquotedString text)

/-- A single term stands for itself. -/
theorem AreTerms.shaped {multiline : Bool} {terms : List Node} (h : AreTerms multiline terms) :
    Shaped (ofTerms terms) := by
  unfold ofTerms
  split
  · exact .operand h.operand
  · exact .expression h

/-- An element of the grammar has one of the shapes. -/
theorem IsElement.shaped {node : Node} (h : IsElement node) : Shaped node := by
  cases h with
  | comment h => exact .comment h
  | value terms => exact terms.shaped

/-- What stands inside a node of a parsed tree has a shape of its own. -/
theorem Shaped.inside {node : Node} (h : Shaped node) : ∀ part ∈ node.inside, Shaped part := by
  cases h with
  | root inside => exact fun part mem => .declaration (inside part mem)
  | declaration h =>
    cases h with
    | comment h => exact h.inside ▸ nofun
    | block _ inside => exact fun part mem => .declaration (inside part mem)
    | @property name terms _ h =>
      obtain ⟨kind, value, shape, -, rfl | rfl⟩ := h.fitsProperty name
      · exact shape ▸ fun part mem => .operand (List.mem_singleton.mp mem ▸ h.operand)
      · exact shape ▸ fun part mem => List.mem_singleton.mp mem ▸ .expression h
    | typed _ constraint => exact fun part mem => .type (List.mem_singleton.mp mem ▸ constraint)
  | comment h => exact h.inside ▸ nofun
  | type h =>
    cases h with
    | primitive => exact nofun
    | collection element => exact fun part mem => .type (List.mem_singleton.mp mem ▸ element)
    | object inside => exact fun part mem => .member (inside part mem)
    | tuple inside => exact fun part mem => .type (inside part mem)
  | member h =>
    cases h with
    | comment h => exact h.inside ▸ nofun
    | typed _ constraint => exact fun part mem => .type (List.mem_singleton.mp mem ▸ constraint)
  | operand h =>
    cases h with
    | call _ inside | group inside | list inside => exact fun part mem => (inside part mem).shaped
    | map inside => exact fun part mem => .declaration (inside part mem)
    | loop | heredoc | string | numberOrBool | unquoted => exact nofun
  | expression h => exact h.forall_mem (fun _ => .operand) (fun _ => .symbol) fun _ => .accessor
  | symbol | accessor => exact nofun

/-- A node of one of the shapes holds what it may. -/
theorem Shaped.fits {node : Node} (h : Shaped node) : node.Fits := by
  cases h with
  | root inside => exact fun part mem => (inside part mem).isDeclaration
  | declaration h =>
    cases h with
    | comment h => exact h.fits
    | block isHeader inside =>
      exact ⟨isHeader.labels, fun part mem => (inside part mem).isDeclaration⟩
    | @property name terms _ h =>
      obtain ⟨kind, value, shape, fits, -⟩ := h.fitsProperty name
      rw [shape]
      exact fits
    | typed _ constraint => exact constraint.isType
  | comment h => exact h.fits
  | type h =>
    cases h with
    | primitive listed => exact listed
    | collection element => exact element.isType
    | object inside => exact fun part mem => (inside part mem).fits
    | tuple inside => exact fun part mem => (inside part mem).isType
  | member h =>
    cases h with
    | comment h => exact h.fits
    | typed _ constraint => exact constraint.isType
  | operand h =>
    cases h with
    | call _ inside | group inside | list inside => exact fun part mem => (inside part mem).fitsElement
    | map inside => exact fun part mem => (inside part mem).isDeclaration
    | loop _ brackets => exact brackets
    | heredoc h => exact h.fits
    | numberOrBool literal => exact literal
    | string | unquoted => trivial
  | expression h => exact ⟨h.ne_nil, h.kinds⟩
  | symbol listed => exact listed
  | accessor => trivial

end Grammar

/-! ### Parsed trees -/

/-- Every node of a template that is read has one of the shapes of the grammar. -/
theorem parse_shaped {text : Text} {document : Document} (h : parse text = .ok document) :
    document.root.Everywhere Shaped := by
  obtain ⟨rest, found, -⟩ := declarations_of_parse h
  exact .of_closed (fun _ => Shaped.inside) (.root (isDeclaration_of_declarations found))

/-- Every node of every template that is read is well formed. -/
theorem parse_wellFormed {text : Text} {document : Document} (h : parse text = .ok document) :
    document.root.Everywhere Node.WellFormed :=
  (parse_shaped h).mono fun _ shaped => shaped.fits.wellFormed

/-- A block with a sum in it. -/
theorem parse_wellFormed_sum :
    ∃ document, parse "b \x7ba = 1 + c\x7d".toList = .ok document ∧ document.declarations ≠ []
      ∧ document.root.Everywhere Node.WellFormed := by
  have found : parse "b \x7ba = 1 + c\x7d".toList = .ok ⟨[.block ⟨.bare "b".toList, false, none, none⟩
      [.property .unquotedExpression (.bare "a".toList) (.unquotedExpression
        [.numberOrBool "1".toList, .mathSymbol "+".toList, .unquotedString "c".toList])]]⟩ := by
    cbv
  exact ⟨_, found, List.cons_ne_nil _ _, parse_wellFormed found⟩

end HclSyntax
