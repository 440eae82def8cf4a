import HclSyntax.Grammar.Rule
import HclSyntax.Text.Location

/-!
# `HclSyntax.ParseError`: why a text is not a template

A text is turned down at one place and for one cause: something else was expected there
(`ParseError.unexpected`), or the text ends inside a construct (`ParseError.unterminated`).
`ParseError.message` is the line that is shown.
-/

set_option autoImplicit false

namespace HclSyntax

/-- What the grammar would have accepted at the place of an error. -/
inductive Expectation where
  /-- A declaration, at the top level of a template. -/
  | declaration
  /-- The end of a single value. -/
  | endOfValue
  /-- The closing brace of a block, for each of the open blocks. -/
  | closingBraces (blocks : Nat)
  /-- Anything that the grammar has a rule for. -/
  | validSyntax
deriving DecidableEq, Repr

/-- The wording of an expectation. -/
def Expectation.message : Expectation → Text
  | .declaration => "a property, block or comment".toList
  | .endOfValue => "end of value".toList
  | .closingBraces blocks => Text.join " or ".toList (List.replicate blocks "`\x7d`".toList)
  | .validSyntax => "valid syntax".toList

/-- The wording for a construct. -/
def Construct.message : Construct → Text
  | .quotedString => "quoted string".toList
  | .heredoc => "heredoc".toList
  | .comment => "comment".toList
  | .block => "block".toList
  | .list => "list".toList
  | .map => "map".toList
  | .functionCall => "function call".toList
  | .parenthesized => "parenthesized expression".toList
  | .forExpression => "for expression".toList

/-- Why a text is not a template, and where. -/
inductive ParseError where
  | unexpected (place : Location) (expected : Expectation)
  | unterminated (place : Location) (construct : Construct)
deriving DecidableEq, Repr

namespace ParseError

/-- The place of an error. -/
def place : ParseError → Location
  | unexpected place _ => place
  | unterminated place _ => place

/-- The error for a fault in a text, found where `rest` is still to be read. A body that is open at
the end of the text makes its block unterminated. -/
def ofFault (text rest : Text) : Fault → ParseError
  | .unterminated construct => .unterminated (.before text rest) construct
  | .unclosedBody bodies =>
    if rest.isEmpty then .unterminated (.before text rest) .block
    else .unexpected (.before text rest) (.closingBraces bodies)

/-- A place in words. -/
def placeMessage (place : Location) : Text :=
  " at line ".toList ++ Text.ofNat place.line ++ ", column ".toList ++ Text.ofNat place.column

/-- The wording of an error. -/
def message : ParseError → Text
  | unexpected place expected =>
    "syntax error".toList ++ placeMessage place ++ ": expected ".toList ++ expected.message
  | unterminated place construct =>
    "unterminated ".toList ++ construct.message ++ placeMessage place

end ParseError

end HclSyntax
