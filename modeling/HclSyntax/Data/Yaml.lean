import HclSyntax.Data.Basic
import HclSyntax.Data.Yaml.Scalar

/-!
# `HclSyntax.Data.Yaml`: data as YAML

Records and lists are written in block style: a field per line, the fields of a nested record two
spaces further in, the items of a list behind dashes that stand at the column of the key. Empty
lists and records are written in brackets. How texts are written is the matter of
`HclSyntax.Data.Yaml.Scalar`.

A block is a list of lines, each with the break that ends it, so that a block is put into another
one by moving its lines in.
-/

set_option autoImplicit false

namespace HclSyntax

namespace Yaml

/-- The lines of a text, each with the break that ends it. The last line gets a line feed if it has
no break. -/
def splitLines : Text → List Text
  | [] => []
  | c :: rest =>
    if isBreak c then [c] :: splitLines rest
    else
      match splitLines rest with
      | [] => [[c, '\n']]
      | line :: lines => (c :: line) :: lines

/-- A line two spaces further in. Empty lines stay empty. -/
def moveIn (line : Text) : Text :=
  if line.head?.all isBreak then line else ' ' :: ' ' :: line

/-- A block behind a start of two columns, or of a key: its first line follows the start, the others
are moved in. -/
def hang (start : Text) : List Text → List Text
  | [] => []
  | line :: lines => (start ++ line) :: lines.map moveIn

/-- Whether a key stands on the line of its value: it is one line of at most 128 bytes. -/
def isSimpleKey (key : Text) : Bool :=
  !key.any isBreak && key.utf8Length ≤ 128

/-- A key with its value, whose lines are given. A key that is not simple stands behind a question
mark and its value behind a colon. -/
def field (key : Text) (value : Data) (lines : List Text) : List Text :=
  if isSimpleKey key then
    let start := scalar key ++ [':']
    match value with
    | .list (_ :: _) => (start ++ ['\n']) :: lines
    | .record (_ :: _) => (start ++ ['\n']) :: lines.map moveIn
    | _ => hang (start ++ [' ']) lines
  else hang ['?', ' '] (splitLines (scalar key)) ++ hang [':', ' '] lines

mutual

/-- The lines of data. -/
def block : Data → List Text
  | .text content => splitLines (scalar content)
  | .number n => [Text.ofNat n ++ ['\n']]
  | .list [] => [['[', ']', '\n']]
  | .list (item :: rest) => hang ['-', ' '] (block item) ++ items rest
  | .record [] => [['\x7b', '\x7d', '\n']]
  | .record ((key, value) :: rest) => field key value (block value) ++ fields rest

/-- The lines of the items of a list. -/
def items : List Data → List Text
  | [] => []
  | item :: rest => hang ['-', ' '] (block item) ++ items rest

/-- The lines of the fields of a record. -/
def fields : List (Text × Data) → List Text
  | [] => []
  | (key, value) :: rest => field key value (block value) ++ fields rest

end

end Yaml

/-- The YAML text of data. -/
def Data.toYaml (data : Data) : Text :=
  (Yaml.block data).flatten

end HclSyntax
