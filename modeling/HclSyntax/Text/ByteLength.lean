import HclSyntax.Text.Quoted

/-!
# `HclSyntax.Text.ByteLength`: where quoted strings end, in bytes

Offsets count the bytes of the UTF-8 form of a text, and the end of a quoted string can be found in
these bytes alone. All characters that matter for it take one byte, and no byte of a longer character
is one of them. `Bytes.quotedLength` and `Bytes.templateLength` step over everything else one byte at
a time. An escape takes two bytes whatever they are, so a step may end inside a longer character or
behind the end of the text.

The two call each other: a template sequence in a string is stepped over as a whole, and so is a
string in a template sequence.
-/

set_option autoImplicit false

namespace HclSyntax

/-- Bytes in a row. -/
abbrev Bytes : Type := List UInt8

/-- The UTF-8 form of a text. -/
def Text.utf8 (text : Text) : Bytes :=
  text.flatMap String.utf8EncodeChar

namespace Bytes

/-- The bytes that start a template sequence when an opening brace follows. -/
def isTemplateMark (b : UInt8) : Bool :=
  b == '$'.toUInt8 || b == '%'.toUInt8

mutual

/-- The number of bytes from a place in a quoted string to its end; nothing when the bytes end
first. -/
def quotedTail : Bytes → Option Nat
  | [] => none
  | b :: rest =>
    if b = '"'.toUInt8 then some 1
    else if b = '\\'.toUInt8 || (isTemplateMark b && rest.head? = some b) then
      (quotedTail (rest.drop 1)).map (· + 2)
    else if isTemplateMark b && rest.head? = some '{'.toUInt8 then
      (templateTail 0 (rest.drop 1)).bind fun inside =>
        (quotedTail (rest.drop (1 + inside))).map (· + inside + 2)
    else (quotedTail rest).map (· + 1)
termination_by bytes => bytes.length
decreasing_by all_goals simp only [List.length_drop, List.length_cons]; omega

/-- The number of bytes from a place in a template sequence, with this many braces open, to its
end. -/
def templateTail (braces : Nat) : Bytes → Option Nat
  | [] => none
  | b :: rest =>
    if b = '"'.toUInt8 then
      (quotedTail rest).bind fun inside =>
        (templateTail braces (rest.drop inside)).map (· + inside + 1)
    else if b = '{'.toUInt8 then (templateTail (braces + 1) rest).map (· + 1)
    else if b = '}'.toUInt8 then
      match braces with
      | 0 => some 1
      | inner + 1 => (templateTail inner rest).map (· + 1)
    else (templateTail braces rest).map (· + 1)
termination_by bytes => bytes.length
decreasing_by all_goals simp only [List.length_drop, List.length_cons]; omega

end

/-- The number of bytes of the quoted string at the start, with both quotes. -/
def quotedLength (bytes : Bytes) : Option Nat :=
  (quotedTail (bytes.drop 1)).map (· + 1)

/-- The number of bytes of the template sequence at the start, with its delimiters. -/
def templateLength (bytes : Bytes) : Option Nat :=
  (templateTail 0 (bytes.drop 2)).map (· + 2)

end Bytes

end HclSyntax
