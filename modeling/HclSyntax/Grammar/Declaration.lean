import HclSyntax.Grammar.Expression
import HclSyntax.Grammar.TypeConstraint

/-!
# `HclSyntax.Grammar.Declaration`: blocks and properties

A declaration is a block, a property or a comment. The forms are tried in a fixed order and the
first that applies decides, so the more specific ones come first. The body of a block is committed:
once its brace is open, whatever is not a declaration there is a fault.

Like the rules for values, the rules here are stated over the rules for what stands inside brackets.
-/

set_option autoImplicit false

namespace HclSyntax.Grammar

open Rule

/-! ### Blocks -/

/-- The body of a block with its braces. -/
def blockBody (inner : Inner) : Rule (List Node) := do
  whitespace
  let _ ← char '{'
  body do
    let declarations ← inner.declarations
    whitespace
    let _ ← char '}'
    return declarations

/-- The name of a block, with the word `dynamic` before it or without. -/
def blockName : Rule (Bool × Name) :=
  (do
    let _ ← keyword "dynamic".toList
    whitespace
    return (true, ← propertyName))
  <|> (do return (false, ← propertyName))

/-- A block with no label. -/
def namedBlock (inner : Inner) : Rule Node := do
  let (isDynamic, name) ← blockName
  let declarations ← blockBody inner
  return .block ⟨name, isDynamic, none, none⟩ declarations

/-- A block with one label, which an equals sign or colon may introduce. -/
def labelledBlock (inner : Inner) : Rule Node := do
  let (isDynamic, name) ← blockName
  let _ ← optional equals
  whitespace
  let first ← label
  let declarations ← blockBody inner
  return .block ⟨name, isDynamic, some first, none⟩ declarations

/-- A block with two labels. -/
def typedBlock (inner : Inner) : Rule Node := do
  let (isDynamic, name) ← blockName
  whitespace
  let first ← label
  whitespace
  let second ← label
  let declarations ← blockBody inner
  return .block ⟨name, isDynamic, some first, some second⟩ declarations

/-- The declaration of a function: a block named `function` with one label. -/
def functionDeclaration (inner : Inner) : Rule Node := do
  let _ ← keyword "function".toList
  whitespace
  let first ← label
  let declarations ← blockBody inner
  return .block ⟨.bare "function".toList, false, some first, none⟩ declarations

/-! ### Properties -/

/-- Applies where nothing but a separator, a comment, a closing bracket or the end of the text
follows on the line. -/
def endOfValue : Rule Unit :=
  followedBy do
    inlineWhitespace
    endOfText
      <|> (do let _ ← oneOf ['\n', ',', ';', '}', ']', ')', '#'])
      <|> (do let _ ← word "//".toList)
      <|> (do let _ ← word "/*".toList)

/-- A property of some kind with a value that ends the line. -/
def assigned (kind : PropertyKind) (rule : Rule Node) : Rule Node := do
  let name ← propertyName
  equals
  let value ← rule
  endOfValue
  return .property kind name value

/-- The kind and value of a property whose value is an expression of some terms. A single term that
is no value of its own is kept as an expression. -/
def propertyOfTerms (name : Name) : List Node → Node
  | [.list elements] => .property .list name (.list elements)
  | [.map entries] => .property .map name (.map entries)
  | [.heredoc doc] => .property .heredoc name (.heredoc doc)
  | [.string content] => .property .string name (.string content)
  | [.numberOrBool text] => .property .string name (.numberOrBool text)
  | [.function called arguments] =>
    .property .unquotedExpression name (.function called arguments)
  | [.forLoop loop] => .property .unquotedExpression name (.forLoop loop)
  | terms => .property .unquotedExpression name (.unquotedExpression terms)

/-- A property whose value is a type constraint. -/
def typedProperty : Rule Node :=
  assigned .type typeConstraint

/-- A property whose value starts with a call. -/
def functionProperty (inner : Inner) : Rule Node := do
  let name ← propertyName
  equals
  followedBy callStart
  let terms ← expressionTerms inner false
  return propertyOfTerms name terms

/-- A property whose value starts with a for expression in braces. -/
def forObjectProperty (inner : Inner) : Rule Node := do
  let name ← propertyName
  equals
  followedBy do
    let _ ← char '{'
    forKeyword
  let terms ← expressionTerms inner false
  return propertyOfTerms name terms

/-- A property whose value is a string, number or boolean. -/
def scalarProperty : Rule Node :=
  assigned .string scalar

/-- A property with any expression as its value. -/
def unquotedProperty (inner : Inner) : Rule Node := do
  let name ← propertyName
  equals
  let terms ← expressionTerms inner false
  return propertyOfTerms name terms

/-- A property whose value is a list. -/
def listProperty (inner : Inner) : Rule Node :=
  assigned .list (list inner)

/-- A property whose value is a map. -/
def mapProperty (inner : Inner) : Rule Node :=
  assigned .map (map inner)

/-- A property whose value is a heredoc. -/
def heredocProperty : Rule Node := do
  let name ← propertyName
  equals
  let doc ← heredoc
  return .property .heredoc name (.heredoc doc)

/-- A property whose value is a for expression in square brackets. -/
def forListProperty : Rule Node :=
  assigned .unquotedExpression do return .forLoop (← forList)

/-! ### Sequences -/

/-- A declaration. -/
def declaration (inner : Inner) : Rule Node :=
  namedBlock inner
    <|> typedProperty
    <|> functionProperty inner
    <|> forObjectProperty inner
    <|> functionDeclaration inner
    <|> labelledBlock inner
    <|> typedBlock inner
    <|> scalarProperty
    <|> unquotedProperty inner
    <|> listProperty inner
    <|> mapProperty inner
    <|> heredocProperty
    <|> comment
    <|> forListProperty

/-- Declarations, each with a comma or semicolon after it or without, over the rules for what stands
inside their brackets. -/
def declarationsOver (inner : Inner) : Rule (List Node) :=
  many do
    whitespace
    let found ← declaration inner
    let _ ← optional do
      whitespace
      oneOf [',', ';']
    return found

end HclSyntax.Grammar
