import HclSyntax.Grammar.Comment
import HclSyntax.Grammar.Name

/-!
# `HclSyntax.Grammar.TypeConstraint`: type constraints

A type constraint is a primitive type, a collection type (`map`, `list` or `set`) over another
constraint, an object type with named members, or a tuple type. Primitive types may be quoted.

The rules are stated over the rule `inner` for the constraints inside; `typeConstraint` ties the
knot. A constraint inside another one starts behind at least one character of it, so the recursion
is on the length of the text, and the test for that length never turns anything down.
-/

set_option autoImplicit false

namespace HclSyntax.Grammar

open Rule

/-- The name of a primitive type, which no character of a name may follow. -/
def primitiveName : Rule Text := do
  let name ← word "string".toList <|> word "number".toList <|> word "bool".toList
    <|> word "any".toList
  notFollowedBy (charWhere isNameChar)
  return name

/-- A primitive type, bare or in quotes. -/
def primitiveType : Rule Node :=
  (do return .primitiveType (← primitiveName) false) <|> do
    let _ ← char '"'
    let name ← primitiveName
    let _ ← char '"'
    return .primitiveType name true

/-- The word of a type and the opening parenthesis after it. -/
def typeWord (name : Text) : Rule Unit := do
  let _ ← word name
  whitespace
  let _ ← char '('
  whitespace

/-- A collection type. -/
def collectionType (inner : Rule Node) (collection : CollectionType) : Rule Node := do
  typeWord collection.word
  let element ← inner
  whitespace
  let _ ← char ')'
  return .collectionType collection element

/-- A member of an object type. -/
def typeMember (inner : Rule Node) : Rule Node := do
  let name ← propertyName
  equals
  let value ← inner
  return .property .type name value

/-- An object type: members and comments, with commas after them or without. A comma has to stand
on the line where its member ends. -/
def objectType (inner : Rule Node) : Rule Node := do
  typeWord "object".toList
  let _ ← char '{'
  let members ← many do
    whitespace
    let member ← comment <|> typeMember inner
    let _ ← optional do
      inlineWhitespace
      char ','
    return member
  whitespace
  let _ ← char '}'
  whitespace
  let _ ← char ')'
  return .objectType members

/-- A tuple type: constraints with commas after them or without. -/
def tupleType (inner : Rule Node) : Rule Node := do
  typeWord "tuple".toList
  let _ ← char '['
  let elements ← many do
    whitespace
    let element ← inner
    let _ ← optional do
      whitespace
      char ','
    return element
  whitespace
  let _ ← char ']'
  whitespace
  let _ ← char ')'
  return .tupleType elements

/-- A type constraint over a rule for the constraints inside it. -/
def typeConstraintOver (inner : Rule Node) : Rule Node :=
  collectionType inner .map <|> objectType inner <|> collectionType inner .list
    <|> collectionType inner .set <|> tupleType inner <|> primitiveType

/-- A type constraint. -/
def typeConstraint : Rule Node :=
  fun text =>
    typeConstraintOver
      (fun rest => if rest.length < text.length then typeConstraint rest else .mismatch rest) text
termination_by text => text.length

end HclSyntax.Grammar
