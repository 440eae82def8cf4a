import HclSyntax.Grammar.Literal

/-!
# `HclSyntax.Grammar.Name`: names, labels and the equals sign

Names of blocks and properties are bare or quoted. A bare name may stand in parentheses, which then
belong to it. Labels are the same two forms, but the tree does not keep which one was used.
-/

set_option autoImplicit false

namespace HclSyntax.Grammar

open Rule

/-- A bare name, possibly in parentheses. -/
def identifier : Rule Text :=
  takeWhile1 isNameChar <|> do
    let _ ← char '('
    let name ← takeWhile1 isNameChar
    let _ ← char ')'
    return '(' :: name ++ [')']

/-- The name of a property or block. -/
def propertyName : Rule Name :=
  (do return .bare (← identifier)) <|> (do return ⟨← quotedString, true⟩)

/-- A label of a block. -/
def label : Rule Text :=
  quotedString <|> identifier

/-- What stands between a name and its value: an equals sign, but not the first of two, or a colon.
It has to stand on the line of the name. -/
def equals : Rule Unit := do
  inlineWhitespace
  (do let _ ← char '='; notFollowedBy (char '=')) <|> (do let _ ← char ':')
  whitespace

/-- One part of the name of a function. -/
def functionNamePart : Rule Text := do
  let first ← charWhere isAlphabetic
  let others ← takeWhile fun c => isAlphanumeric c || c == '_'
  return first :: others

/-- The name of a function, whose parts have double colons between them. -/
def functionName : Rule Text := do
  let first ← functionNamePart
  let others ← many do
    let colons ← word "::".toList
    let part ← functionNamePart
    return colons ++ part
  return first ++ others.flatten

end HclSyntax.Grammar
