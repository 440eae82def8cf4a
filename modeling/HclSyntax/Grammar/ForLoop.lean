import HclSyntax.Grammar.Bracket
import HclSyntax.Grammar.Name

/-!
# `HclSyntax.Grammar.ForLoop`: for expressions

A for expression stands in braces or square brackets. It binds names; its collection runs to
the first colon outside brackets, its statements to the word `if` or the closing bracket, and its
condition to the closing bracket. All three are kept as text. Once the names and the word `in`
are there, running out of text is a fault.
-/

set_option autoImplicit false

namespace HclSyntax.Grammar

open Rule

/-- The word `for` with white space after it, which is not taken, and perhaps before it. -/
def forKeyword : Rule Unit := do
  whitespace
  let _ ← keyword "for".toList
  return ()

/-- A closing bracket after white space. Nothing but white space up to the end of the text is the
fault that the construct never ends. -/
def closing (bracket : Char) (construct : Construct) : Rule Unit := do
  whitespace
  let rest ← remaining
  if rest.isEmpty then unterminated construct
  else
    let _ ← char bracket
    return ()

/-- Balanced text inside a for expression. If it runs to the end of the text, so does the for
expression, and the place of the fault is that end. -/
def loopPart (stop : Text → Bool) : Rule Text :=
  fun text =>
    match balancedSplit stop 0 text with
    | some (inside, after) => .matched inside after
    | none => .committed [] (.unterminated .forExpression)

/-- Whether the condition of a for expression starts here: white space, the word `if`, and white
space or an opening parenthesis. -/
def startsCondition (text : Text) : Bool :=
  text.head?.any isWhitespace &&
    match "if".toList.isPrefixOf? text.trimStart with
    | some after => after.head?.any fun c => isWhitespace c || c == '('
    | none => false

/-- The names a for expression binds, as they are printed. -/
def loopBindings : Rule Text := do
  let first ← identifier
  let second ← optional do
    whitespace
    let _ ← char ','
    whitespace
    identifier
  match second with
  | some name => return first ++ ", ".toList ++ name
  | none => return first

/-- The names of a loop are read and then put together. -/
theorem loopBindings_eq :
    loopBindings = identifier >>= fun first =>
      optional (whitespace >>= fun _ => char ',' >>= fun _ => whitespace >>= fun _ => identifier)
        >>= fun second => pure (first ++ second.elim [] (", ".toList ++ ·)) := by
  unfold loopBindings
  congr 1
  funext first
  congr 1
  funext second
  cases second <;> simp

/-- The condition of a for expression, as it is printed. -/
def loopCondition : Rule Text := do
  whitespace
  let _ ← word "if".toList
  let condition ← balancedToBracket
  return "if ".toList ++ Text.trim condition

/-- A for expression in these brackets. -/
def forLoop (openingBracket closingBracket : Char) : Rule ForLoop := do
  let _ ← char openingBracket
  forKeyword
  whitespace
  let bindings ← loopBindings
  whitespace
  let _ ← word "in".toList
  let _ ← charWhere isWhitespace
  whitespace
  let collection ← loopPart fun rest => rest.head? == some ':'
  let _ ← char ':'
  whitespace
  let statements ← loopPart startsCondition
  let condition ← optionalText loopCondition
  closing closingBracket .forExpression
  return {
    opening := openingBracket
    closing := closingBracket
    bindings := bindings
    collection := Text.trim collection
    statements := Text.trim statements
    condition := condition }

/-- A for expression that yields an object. -/
def forObject : Rule ForLoop :=
  forLoop '{' '}'

/-- A for expression that yields a list. -/
def forList : Rule ForLoop :=
  forLoop '[' ']'

end HclSyntax.Grammar
