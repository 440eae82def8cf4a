import HclSyntax.Grammar.Rule
import HclSyntax.Node.Basic
import HclSyntax.Text.Escape

/-!
# `HclSyntax.Grammar.Literal`: numbers, booleans, quoted strings and heredocs

The literals of a template. Numbers and booleans keep their spelling; quoted strings are kept
unescaped; the body of a heredoc is verbatim. A quoted string or heredoc that never ends is a fault,
everything else that fails here is a mismatch.
-/

set_option autoImplicit false

namespace HclSyntax.Grammar

open Rule

/-! ### Numbers and booleans -/

/-- The characters of names. -/
def isNameChar (c : Char) : Bool :=
  isAlphanumeric c || c == '_' || c == '-' || c == '.'

/-- The text of a rule that may be left out. -/
def optionalText (rule : Rule Text) : Rule Text := do
  let found ← optional rule
  return found.getD []

/-- The exponent of a number. -/
def exponent : Rule Text := do
  let mark ← oneOf ['e', 'E']
  let sign ← optional (oneOf ['+', '-'])
  let digits ← takeWhile1 Char.isDigit
  return mark :: sign.toList ++ digits

/-- The part of a number from its point on, which may have an exponent of its own. -/
def fraction : Rule Text := do
  let point ← char '.'
  let digits ← takeWhile Char.isDigit
  let power ← optionalText exponent
  return point :: digits ++ power

/-- A decimal number without its sign. -/
def decimal : Rule Text := do
  let digits ← takeWhile1 Char.isDigit
  let power ← optionalText exponent
  let decimals ← optionalText fraction
  return digits ++ power ++ decimals

/-- A hexadecimal number without its sign. -/
def hexadecimal : Rule Text := do
  let mark ← word "0x".toList
  let digits ← takeWhile1 isHexDigit
  return mark ++ digits

/-- A number, which no letter, numeral, underscore or point may follow. -/
def number : Rule Text := do
  let sign ← optional (char '-')
  let magnitude ← hexadecimal <|> decimal
  notFollowedBy (charWhere fun c => isAlphanumeric c || c == '_' || c == '.')
  return sign.toList ++ magnitude

/-- A word written in any mixture of cases. -/
def wordAnyCase (expected : Text) : Rule Text :=
  fun text =>
    let found := text.take expected.length
    if found.map Char.toLower = expected then .matched found (text.drop expected.length)
    else .mismatch text

/-- `true` or `false` in any case, which no character of a name may follow. -/
def boolean : Rule Text := do
  let found ← wordAnyCase "true".toList <|> wordAnyCase "false".toList
  notFollowedBy (charWhere isNameChar)
  return found

/-- A number or boolean as a node. -/
def numberOrBool : Rule Node := do
  let text ← number <|> boolean
  return .numberOrBool text

/-! ### Quoted strings -/

/-- A quoted string, as its unescaped content. The place of the fault is right after the opening
quote. -/
def quotedString : Rule Text :=
  fun text =>
    match text with
    | [] => .mismatch text
    | c :: rest =>
      if c = '"' then
        match Text.close [.quote] rest with
        | some (span, after) => .matched (Text.unescape span.dropLast) after
        | none => .committed rest (.unterminated .quotedString)
      else .mismatch text

/-- A quoted string, number or boolean as a node. -/
def scalar : Rule Node :=
  (do return .string (← quotedString)) <|> numberOrBool

/-! ### Heredocs -/

/-- The characters of the marker of a heredoc. -/
def isMarkerChar (c : Char) : Bool :=
  isAlphanumeric c || c == '_'

/-- The characters that may follow the closing marker on its line. -/
def mayFollowMarker (c : Char) : Bool :=
  isWhitespace c || [',', ')', ']', '}'].contains c

/-- If a line closes the heredoc with this marker, what follows the marker on it. -/
def closingLine? (marker line : Text) : Option Text :=
  match marker.isPrefixOf? line.trimStart with
  | some tail => if tail.all mayFollowMarker then some tail else none
  | none => none

/-- The lines before the one that closes the heredoc, and what follows the closing marker. -/
def heredocBody (marker text : Text) : Option (Text × Text) :=
  match closingLine? marker text.splitLine.1 with
  | some tail => some ([], tail ++ text.splitLine.2)
  | none =>
    if h : text.splitLine.2 = [] then none
    else
      have : text.splitLine.2.length < text.length :=
        Text.splitLine_shortens fun empty => h (by rw [empty]; rfl)
      (heredocBody marker text.splitLine.2).map
        fun (body, after) => (text.splitLine.1 ++ body, after)
termination_by text.length

/-- The first line of a heredoc: whether it has a dash, and the marker. -/
def heredocHead : Rule (Bool × Text) := do
  let _ ← word "<<".toList
  let dash ← optional (char '-')
  let marker ← takeWhile1 isMarkerChar
  inlineWhitespace
  let _ ← char '\n'
  return (dash.isSome, marker)

/-- A heredoc up to and with its closing marker. The place of the fault is the start of the
body. -/
def heredoc : Rule Heredoc := do
  let (indented, marker) ← heredocHead
  fun text =>
    match heredocBody marker text with
    | some (body, after) => .matched ⟨marker, indented, body⟩ after
    | none => .committed text (.unterminated .heredoc)

end HclSyntax.Grammar
