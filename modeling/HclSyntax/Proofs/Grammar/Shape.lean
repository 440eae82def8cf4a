import HclSyntax.Grammar.Template
import HclSyntax.Proofs.Grammar.ForLoop
import HclSyntax.Proofs.Grammar.Operator
import HclSyntax.Proofs.Grammar.UnquotedText
import HclSyntax.Proofs.Grammar.Verbatim
import HclSyntax.Proofs.Node.Parts

/-!
# `HclSyntax.Proofs.Grammar.Shape`: the trees the grammar describes

The type `Node` holds more trees than a text can have. The predicates of this module say which trees
the grammar describes, category by category: `IsType`, `IsOperand`, `IsUnary`, `AreTerms`,
`IsElement` and `IsDeclaration`. They follow the rules, but say nothing of the order in which
alternatives are tried, nor of the text around a node.
-/

set_option autoImplicit false

namespace HclSyntax.Grammar

open Rule

/-! ### Types -/

/-- The words for the primitive types. -/
def primitiveWords : List Text :=
  ["string".toList, "number".toList, "bool".toList, "any".toList]

/-- The rule for the names of primitive types takes one of the words. -/
theorem primitiveName_shape {text name rest : Text}
    (h : primitiveName text = .matched name rest) :
    text = name ++ rest ∧ name ∈ primitiveWords := by
  simp only [primitiveName, bind_matched_iff, orElse_matched_iff, word_matched_iff,
    notFollowedBy_matched_iff, pure_matched_iff] at h
  obtain ⟨_, _, words, _, _, ⟨-, rfl⟩, rfl, rfl⟩ := h
  rcases words with ⟨same, rfl⟩ | ⟨-, ⟨same, rfl⟩ | ⟨-, ⟨same, rfl⟩ | ⟨-, same, rfl⟩⟩⟩ <;>
    exact ⟨same, by decide⟩

mutual

/-- A type constraint. -/
inductive IsType : Node → Prop
  | primitive {name : Text} {quoted : Bool} (listed : name ∈ primitiveWords) :
    IsType (.primitiveType name quoted)
  | collection {collection : CollectionType} {element : Node} (inside : IsType element) :
    IsType (.collectionType collection element)
  | object {members : List Node} (inside : ∀ member ∈ members, IsMember member) :
    IsType (.objectType members)
  | tuple {elements : List Node} (inside : ∀ element ∈ elements, IsType element) :
    IsType (.tupleType elements)

/-- What stands in an object type. -/
inductive IsMember : Node → Prop
  | comment {node : Node} (h : IsComment node) : IsMember node
  | typed {name : Name} {constraint : Node} (isName : IsName name) (isType : IsType constraint) :
    IsMember (.property .type name constraint)

end

/-! ### Values and declarations -/

/-- The header of a block: a second label stands behind a first one. -/
structure IsHeader (header : BlockHeader) : Prop where
  name : IsName header.name
  labels : header.typeLabel.isSome → header.label.isSome

/-- The pairs of brackets a for expression stands in. -/
def loopBrackets : List (Char × Char) :=
  [('{', '}'), ('[', ']')]

mutual

/-- A term without signs and accessors. -/
inductive IsOperand : Node → Prop
  | call {name : Text} {arguments : List Node} (isName : IsCallName name)
    (inside : ∀ argument ∈ arguments, IsElement argument) :
    IsOperand (.function (some name) arguments)
  | group {arguments : List Node} (inside : ∀ argument ∈ arguments, IsElement argument) :
    IsOperand (.function none arguments)
  | loop {loop : ForLoop} (h : IsForLoop loop)
    (brackets : (loop.opening, loop.closing) ∈ loopBrackets) : IsOperand (.forLoop loop)
  | list {elements : List Node} (inside : ∀ element ∈ elements, IsElement element) :
    IsOperand (.list elements)
  | map {entries : List Node} (inside : ∀ entry ∈ entries, IsDeclaration entry) :
    IsOperand (.map entries)
  | heredoc {doc : Heredoc} (h : IsHeredoc doc) : IsOperand (.heredoc doc)
  | string {content : Text} : IsOperand (.string content)
  | numberOrBool {text : Text} (h : IsNumber text ∨ IsBoolean text) :
    IsOperand (.numberOrBool text)
  /-- Unquoted text does not start with a number, nor with a boolean unless it is one. -/
  | unquoted {text : Text} (h : IsUnquotedText text) (notNumber : number.Mismatches text)
    (boolean : boolean.Mismatches text ∨ IsBoolean text) : IsOperand (.unquotedString text)

/-- A term with the signs before it and the accessors after it. -/
inductive IsUnary : List Node → Prop
  | bare {node : Node} (h : IsOperand node) : IsUnary [node]
  /-- An attribute of a number is a part of that number, or makes it none. -/
  | accessed {node : Node} {text : Text} (h : IsOperand node) (takes : takesAccessor node = true)
    (accessor : IsAccessorText text)
    (index : ∀ number, node = .numberOrBool number → text.head? = some '[') :
    IsUnary [node, .unquotedString text]
  | signed {sign : Char} {terms : List Node} (isSign : sign = '!' ∨ sign = '-') (h : IsUnary terms) :
    IsUnary (.mathSymbol [sign] :: terms)

/-- The terms of an expression. A heredoc ends its line, so no operator follows it where an
expression does not go over several lines. -/
inductive AreTerms : Bool → List Node → Prop
  | one {multiline : Bool} {terms : List Node} (h : IsUnary terms) : AreTerms multiline terms
  | more {multiline : Bool} {front : List Node} {symbol : Text} {back : List Node}
    (first : IsUnary front) (listed : symbol ∈ operatorSymbols)
    (lines : multiline = false → front.getLast?.any Node.isHeredoc = false)
    (others : AreTerms multiline back) : AreTerms multiline (front ++ .mathSymbol symbol :: back)

/-- What stands in a list and between the parentheses of a call. -/
inductive IsElement : Node → Prop
  | comment {node : Node} (h : IsComment node) : IsElement node
  | value {terms : List Node} (h : AreTerms true terms) : IsElement (ofTerms terms)

/-- A declaration. -/
inductive IsDeclaration : Node → Prop
  | comment {node : Node} (h : IsComment node) : IsDeclaration node
  | block {header : BlockHeader} {declarations : List Node} (isHeader : IsHeader header)
    (inside : ∀ declaration ∈ declarations, IsDeclaration declaration) :
    IsDeclaration (.block header declarations)
  | property {name : Name} {terms : List Node} (isName : IsName name) (h : AreTerms false terms) :
    IsDeclaration (propertyOfTerms name terms)
  | typed {name : Name} {constraint : Node} (isName : IsName name) (isType : IsType constraint) :
    IsDeclaration (.property .type name constraint)

end

/-- A single operand as an element. -/
theorem isElement_of_operand {node : Node} (h : IsOperand node) : IsElement node :=
  @IsElement.value [node] (.one (.bare h))

/-- A property with a single operand as its value. -/
theorem isDeclaration_of_operand {node : Node} (h : IsOperand node) {name : Name}
    (isName : IsName name) : IsDeclaration (propertyOfTerms name [node]) :=
  .property isName (.one (.bare h))

end HclSyntax.Grammar
