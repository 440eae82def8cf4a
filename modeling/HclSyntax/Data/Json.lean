import HclSyntax.Data.Basic

/-!
# `HclSyntax.Data.Json`: data as JSON

The layout puts every item and every field on a line of its own, two spaces further in for each
level, with a space after the colon. Empty lists and records stay on their line. There is no line
break at the end.
-/

set_option autoImplicit false

namespace HclSyntax.Data

/-- The digits of hexadecimal numbers in lower case. -/
def hexDigits : Text := "0123456789abcdef".toList

/-- A character of a JSON string. Control characters without a letter of their own are written by
their code point. -/
def jsonChar (c : Char) : Text :=
  match [('"', '"'), ('\\', '\\'), ('\x08', 'b'), ('\x0c', 'f'), ('\n', 'n'), ('\r', 'r'),
    ('\t', 't')].lookup c with
  | some letter => ['\\', letter]
  | none =>
    if c.toNat < 0x20 then
      "\\u00".toList
        ++ [hexDigits.getD (c.toNat / 16) '0', hexDigits.getD (c.toNat % 16) '0']
    else [c]

/-- A JSON string. -/
def jsonString (content : Text) : Text :=
  '"' :: content.flatMap jsonChar ++ ['"']

/-- A line break and the margin of a level. -/
def newLine (level : Nat) : Text :=
  '\n' :: List.replicate (2 * level) ' '

mutual

/-- The JSON text of data whose line is at this level. -/
def jsonAt (level : Nat) : Data → Text
  | .text content => jsonString content
  | .number n => Text.ofNat n
  | .list [] => ['[', ']']
  | .list (item :: rest) =>
    '[' :: newLine (level + 1) ++ jsonAt (level + 1) item ++ jsonItems level rest
      ++ newLine level ++ [']']
  | .record [] => ['{', '}']
  | .record ((key, item) :: rest) =>
    '{' :: newLine (level + 1) ++ jsonString key ++ [':', ' '] ++ jsonAt (level + 1) item
      ++ jsonFields level rest ++ newLine level ++ ['}']

/-- The items of a list after the first. -/
def jsonItems (level : Nat) : List Data → Text
  | [] => []
  | item :: rest => ',' :: newLine (level + 1) ++ jsonAt (level + 1) item ++ jsonItems level rest

/-- The fields of a record after the first. -/
def jsonFields (level : Nat) : List (Text × Data) → Text
  | [] => []
  | (key, item) :: rest =>
    ',' :: newLine (level + 1) ++ jsonString key ++ [':', ' '] ++ jsonAt (level + 1) item
      ++ jsonFields level rest

end

/-- The JSON text of data. -/
def toJson (data : Data) : Text :=
  jsonAt 0 data

end HclSyntax.Data
