import HclSyntax.Text.Digits
import HclSyntax.Text.Quoted

/-!
# `HclSyntax.Text.Escape`: the content of a quoted string

The tree holds the content of a quoted string as the reader means it, and the source holds it
escaped. Template sequences are the same in both: `Text.segments` splits a content into plain pieces
and template sequences, `Text.escape` and `Text.unescape` change the plain pieces only.

`namedEscapes` is the one table both directions read. Apart from it, `\u` with four and `\U` with
eight hexadecimal digits write a character by its code point; every other backslash is kept.
-/

set_option autoImplicit false

namespace HclSyntax

/-- A piece of string content. -/
inductive Segment where
  /-- Characters that are escaped in the source. -/
  | plain (text : Text)
  /-- A template sequence with its delimiters, the same in both forms. -/
  | template (text : Text)
deriving DecidableEq, Repr

namespace Text

/-- Puts plain characters in front of segments, as part of the first one if that is plain. -/
def prependPlain (text : Text) : List Segment → List Segment
  | .plain next :: rest => .plain (text ++ next) :: rest
  | rest => .plain text :: rest

/-- The plain pieces and template sequences of a string content. `raw` says that the content is
still escaped, so that a backslash takes the next character with it. A sequence that never ends
makes everything from its start on plain. -/
def segments (raw : Bool) (content : Text) : List Segment :=
  match content with
  | [] => []
  | [c] => [.plain [c]]
  | c :: d :: rest =>
    if (raw && c = '\\') || (isTemplateMark c && d = c) then
      prependPlain [c, d] (segments raw rest)
    else if isTemplateMark c && d = '{' then
      match h : close [.template 0] rest with
      | some (span, after) =>
        have : after.length ≤ rest.length := by rw [← close_append h]; simp
        .template (c :: d :: span) :: segments raw after
      | none => [.plain content]
    else prependPlain [c] (segments raw (d :: rest))
termination_by content.length

/-- The characters that have an escape letter of their own. -/
def namedEscapes : List (Char × Char) :=
  [('\\', '\\'), ('"', '"'), ('\n', 'n'), ('\r', 'r'), ('\t', 't'), ('\x07', 'a'), ('\x08', 'b'),
    ('\x0b', 'v'), ('\x0c', 'f')]

/-- A character as it stands between quotes outside template sequences. -/
def escapeChar (c : Char) : Text :=
  match namedEscapes.lookup c with
  | some letter => ['\\', letter]
  | none => [c]

/-- The character whose code point the first `count` characters write in hexadecimal. A plus sign
may stand in the place of the first digit. -/
def codePoint? (count : Nat) (text : Text) : Option Char :=
  let digits := text.take count
  if digits.length < count then none
  else
    match numeral? 16 (if digits.head? = some '+' then digits.tail else digits) with
    | some code => if code.isValidChar then some (Char.ofNat code) else none
    | none => none

/-- What a backslash and the letter after it write, given what follows: a character, and how many of
the following characters belong to the escape. -/
def escaped? (letter : Char) (following : Text) : Option (Char × Nat) :=
  match namedEscapes.find? (·.2 = letter) with
  | some (c, _) => some (c, 0)
  | none =>
    if letter = 'u' then (codePoint? 4 following).map (·, 4)
    else if letter = 'U' then (codePoint? 8 following).map (·, 8)
    else none

/-- A plain piece of source as the reader means it. Escapes that write nothing are kept. -/
def unescapePlain (text : Text) : Text :=
  match text with
  | [] => []
  | [c] => [c]
  | c :: letter :: rest =>
    if c = '\\' then
      match escaped? letter rest with
      | some (d, used) => d :: unescapePlain (rest.drop used)
      | none => c :: letter :: unescapePlain rest
    else c :: unescapePlain (letter :: rest)
termination_by text.length
decreasing_by all_goals simp_wf; try omega

/-- String content as it is written between quotes. -/
def escape (content : Text) : Text :=
  (segments false content).flatMap fun
    | .plain text => text.flatMap escapeChar
    | .template text => text

/-- The content that is written between quotes. -/
def unescape (source : Text) : Text :=
  (segments true source).flatMap fun
    | .plain text => unescapePlain text
    | .template text => text

/-- Content in quotes, as the source of a string, a label or a quoted name. -/
def quote (content : Text) : Text :=
  '"' :: escape content ++ ['"']

end Text

end HclSyntax
