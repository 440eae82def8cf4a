import HclSyntax.Grammar.Comment
import HclSyntax.Grammar.ForLoop

/-!
# `HclSyntax.Grammar.Expression`: values and unquoted expressions

An expression is a flat sequence of terms with operator symbols between them. A term is a call, a
group, a for expression, a list, a map, a heredoc, a literal or unquoted text; signs may stand
before it and accessors after it.

Lists, calls and groups hold values and maps hold declarations, so the rules are stated over a
record `Inner` of the rules for what stands inside brackets. `HclSyntax.Grammar.Template` ties the
knot.
-/

set_option autoImplicit false

namespace HclSyntax.Grammar

open Rule

/-- The rules for what stands inside brackets. -/
structure Inner where
  /-- A single value: an element of a list or an argument. -/
  value : Rule Node
  /-- A sequence of declarations: the entries of a map or the body of a block. -/
  declarations : Rule (List Node)

/-! ### Symbols and text -/

/-- The first of some words that applies. -/
def anyWord : List Text → Rule Text
  | [] => fail
  | expected :: others => word expected <|> anyWord others

/-- An operator symbol. Two slashes, or a slash and a star, start a comment and are none. -/
def operator : Rule Text :=
  anyWord [">=".toList, "<=".toList, "!=".toList, "==".toList, "&&".toList, "||".toList]
    <|> (do
      let symbol ← char '/'
      notFollowedBy (oneOf ['/', '*'])
      return [symbol])
    <|> (do return [← oneOf ['*', '%', '+', '-', '<', '>', '?', ':']])

/-- The characters that end unquoted text. -/
def isDelimiter (c : Char) : Bool :=
  ['"', '/', '%', '-', '+', '=', '|', '>', '<', '!', '&', '~', '^', ';', '\\', '\x27', ',', ')',
    '(', '}', '{', ']', '[', '?', ':', '\n'].contains c

/-- The characters of unquoted text. -/
def isTextChar (c : Char) : Bool :=
  !isDelimiter c && !isWhitespace c && c != '#'

/-- Unquoted text with indices anywhere but at its start. -/
def unquotedText : Rule Text := do
  let first ← charWhere fun c => isTextChar c && c != '.' && c != '*'
  let others ← many (listIndex <|> takeWhile1 isTextChar)
  return first :: others.flatten

/-- Indices and attribute accesses after a term. -/
def accessor : Rule Text := do
  let parts ← many1 (listIndex <|> do
    let point ← char '.'
    let name ← takeWhile isTextChar
    return point :: name)
  return parts.flatten

/-! ### Bracketed terms -/

/-- Values and comments with commas after them or without, and the closing bracket. -/
def elements (inner : Inner) (bracket : Char) (construct : Construct) : Rule (List Node) := do
  let found ← many do
    whitespace
    let element ← comment <|> inner.value
    let _ ← optional do
      whitespace
      char ','
    return element
  closing bracket construct
  return found

/-- The name of a function and the parenthesis that opens its arguments. -/
def callStart : Rule Text := do
  let name ← functionName
  inlineWhitespace
  let _ ← char '('
  return name

/-- A call of a function. -/
def functionCall (inner : Inner) : Rule Node := do
  let name ← callStart
  let arguments ← elements inner ')' .functionCall
  return .function (some name) arguments

/-- A parenthesized group. -/
def parenthesized (inner : Inner) : Rule Node := do
  let _ ← char '('
  let arguments ← elements inner ')' .parenthesized
  return .function none arguments

/-- A list, but not a for expression. -/
def list (inner : Inner) : Rule Node := do
  let _ ← char '['
  notFollowedBy forKeyword
  let found ← elements inner ']' .list
  return .list found

/-- A map, but not a for expression. -/
def map (inner : Inner) : Rule Node := do
  let _ ← char '{'
  notFollowedBy forKeyword
  let entries ← inner.declarations
  closing '}' .map
  return .map entries

/-! ### Terms -/

/-- A term without signs and accessors. -/
def operand (inner : Inner) : Rule Node :=
  functionCall inner
    <|> parenthesized inner
    <|> (do return .forLoop (← forObject))
    <|> (do return .forLoop (← forList))
    <|> list inner
    <|> map inner
    <|> (do return .heredoc (← heredoc))
    <|> scalar
    <|> (do return .unquotedString (← unquotedText))

/-- Whether accessors may follow a term. Those of unquoted text are part of it, and a heredoc ends
its line. -/
def takesAccessor : Node → Bool
  | .unquotedString _ => false
  | .heredoc _ => false
  | _ => true

/-- A term and the accessors after it. -/
def operandWithAccessor (inner : Inner) : Rule (List Node) := do
  let term ← operand inner
  if takesAccessor term then
    match ← optional accessor with
    | some text => return [term, .unquotedString text]
    | none => return [term]
  else return [term]

/-- A term is read first, and then what is accessed in it. -/
theorem operandWithAccessor_eq (inner : Inner) :
    operandWithAccessor inner = operand inner >>= fun term =>
      if takesAccessor term then
        optional accessor >>= fun found => pure (term :: (found.map .unquotedString).toList)
      else pure [term] := by
  unfold operandWithAccessor
  congr 1
  funext term
  congr 2
  funext found
  cases found <;> rfl

/-- A term with the signs before it. A dash that a number begins with belongs to the number. -/
def unaryOperand (inner : Inner) : Rule (List Node) :=
  fun text =>
    match operandWithAccessor inner text with
    | .mismatch _ =>
      match text with
      | [] => .mismatch []
      | c :: rest =>
        if c == '!' || c == '-' then
          match unaryOperand inner (rest.dropWhile isWhitespace) with
          | .matched terms after => .matched (.mathSymbol [c] :: terms) after
          | reply => reply
        else .mismatch (c :: rest)
    | reply => reply
termination_by text => text.length
decreasing_by
  have : (rest.dropWhile isWhitespace).length ≤ rest.length :=
    (List.dropWhile_suffix _).length_le
  simp only [List.length_cons]
  omega

/-- The terms of an expression. An operator has to stand on the line where the term before it ends,
unless the expression is inside brackets (`multiline`). What looks like an operator but has no term
after it is not part of the expression. -/
def expressionTerms (inner : Inner) (multiline : Bool) : Rule (List Node) := do
  let first ← unaryOperand inner
  let others ← many do
    if multiline then whitespace else inlineWhitespace
    let symbol ← operator
    whitespace
    let terms ← unaryOperand inner
    return .mathSymbol symbol :: terms
  return first ++ others.flatten

/-- The value that some terms form: a single term stands for itself. -/
def ofTerms : List Node → Node
  | [term] => term
  | terms => .unquotedExpression terms

/-- A value inside brackets, over the rules for what stands inside its own brackets. -/
def valueOver (inner : Inner) : Rule Node := do
  let terms ← expressionTerms inner true
  return ofTerms terms

end HclSyntax.Grammar
