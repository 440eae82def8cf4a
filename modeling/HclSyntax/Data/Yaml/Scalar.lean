import HclSyntax.Data.Yaml.Resolution

/-!
# `HclSyntax.Data.Yaml.Scalar`: texts as YAML scalars

A text is written in the plainest style that reads back as this text: a text with line feeds as a
literal block, any other without quotes, in single quotes, or in double quotes, where characters can
be escaped. `Yaml.style` chooses, and `Yaml.scalar` writes.

A scalar can take several lines. They are moved in with what surrounds them, which
`HclSyntax.Data.Yaml` does.
-/

set_option autoImplicit false

namespace HclSyntax.Yaml

/-- The ways in which a text can be written. -/
inductive Style where
  | plain
  | singleQuoted
  | doubleQuoted
  | literal
deriving DecidableEq, Repr

/-! ### What stands in a text -/

/-- The characters that end a line: line feed, carriage return, next line, and the separators of
lines and of paragraphs. -/
def isBreak (c : Char) : Bool :=
  ['\n', '\r', '\u0085', '\u2028', '\u2029'].contains c

/-- The characters that can be written as they are: the line feed and everything but control
characters, the byte order mark and the two code points that are no characters. -/
def isPrintable (c : Char) : Bool :=
  c == '\n' || (0x20 ≤ c.toNat && c.toNat < 0x7f)
    || (0xa0 ≤ c.toNat && c.toNat != 0xfeff && c.toNat != 0xfffe && c.toNat != 0xffff)

/-- Whether two characters that satisfy the conditions in this order are neighbours in a text. -/
def hasNeighbours (first second : Char → Bool) : Text → Bool
  | [] => false
  | [_] => false
  | c :: d :: rest => (first c && second d) || hasNeighbours first second (d :: rest)

/-- The characters that have a meaning at the start of a scalar. -/
def isIndicator (c : Char) : Bool :=
  ['#', ',', '[', ']', '\x7b', '\x7d', '&', '*', '!', '|', '>', '\x27', '"', '%', '@',
    '\x60'].contains c

/-- Whether a text begins like something other than a scalar: with an indicator, with a mark of
blocks that nothing or a space follows, or with the marks around documents. -/
def beginsBlock (text : Text) : Bool :=
  "---".toList.isPrefixOf text || "...".toList.isPrefixOf text
    || match text with
      | [] => false
      | c :: rest => isIndicator c || (['-', '?', ':'].contains c && rest.head?.all (· = ' '))

/-- Whether a text holds the end of a key or the start of a comment. -/
def holdsBlock (text : Text) : Bool :=
  text.getLast? == some ':'
    || hasNeighbours (· = ':') (· = ' ') text || hasNeighbours (· = ' ') (· = '#') text

/-! ### The choice of the style -/

/-- Whether a text can be written without quotes. -/
def fitsPlain (text : Text) : Bool :=
  !resolves text && !beginsBlock text && !holdsBlock text
    && text.all (fun c => isPrintable c && !isBreak c)
    && text.head? != some ' ' && text.getLast? != some ' '

/-- Whether a text can be written in single quotes, where spaces beside line breaks are lost. -/
def fitsSingleQuotes (text : Text) : Bool :=
  text.all isPrintable
    && !hasNeighbours (· = ' ') isBreak text && !hasNeighbours isBreak (· = ' ') text

/-- Whether a text can be written as a block of lines, which cannot end in spaces. -/
def fitsLiteral (text : Text) : Bool :=
  text.all isPrintable
    && !hasNeighbours (· = ' ') isBreak text && text.getLast? != some ' '

/-- The style in which a text is written. -/
def style (text : Text) : Style :=
  if text.contains '\n' then
    if fitsLiteral text then .literal else .doubleQuoted
  else if fitsPlain text then .plain
  else if fitsSingleQuotes text then .singleQuoted
  else .doubleQuoted

/-! ### Writing -/

/-- The characters that have an escape letter of their own. -/
def namedEscapes : List (Char × Char) :=
  [('\x00', '0'), ('\x07', 'a'), ('\x08', 'b'), ('\t', 't'), ('\n', 'n'), ('\x0b', 'v'),
    ('\x0c', 'f'), ('\r', 'r'), ('\x1b', 'e'), ('"', '"'), ('\\', '\\'), ('\u0085', 'N'),
    ('\u2028', 'L'), ('\u2029', 'P')]

/-- A character between double quotes. What cannot be printed is written by its code point, in two
or four digits, which is enough for everything that cannot be printed. -/
def doubleQuotedChar (c : Char) : Text :=
  match namedEscapes.lookup c with
  | some letter => ['\\', letter]
  | none =>
    if isPrintable c then [c]
    else
      let digits := (Nat.toDigits 16 c.toNat).map Char.toUpper
      if c.toNat ≤ 0xff then '\\' :: 'x' :: digits.leftpad 2 '0'
      else '\\' :: 'u' :: digits.leftpad 4 '0'

/-- A character between single quotes. -/
def singleQuotedChar (c : Char) : Text :=
  if c = '\x27' then ['\x27', '\x27'] else [c]

/-- The line that opens a literal block: how far its lines are moved in, if that cannot be seen from
the first one, and how many of the line breaks at its end belong to the text, if it is not one. -/
def literalHeader (text : Text) : Text :=
  let indentation := if text.head?.any (fun c => c = ' ' || isBreak c) then ['2'] else []
  let breaks :=
    match text.reverse.takeWhile isBreak, text with
    | [], _ => ['-']
    | [_], [_] => ['+']
    | [_], _ => []
    | _, _ => ['+']
  '|' :: indentation ++ breaks

/-- A text as a scalar. -/
def scalar (text : Text) : Text :=
  match style text with
  | .plain => text
  | .singleQuoted => '\x27' :: text.flatMap singleQuotedChar ++ ['\x27']
  | .doubleQuoted => '"' :: text.flatMap doubleQuotedChar ++ ['"']
  | .literal => literalHeader text ++ '\n' :: text

end HclSyntax.Yaml
