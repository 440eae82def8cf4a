import HclSyntax.Text.CharacterClass

/-!
# `HclSyntax.Text.Basic`: text as a list of characters

A template, and every piece cut out of it, is a `Text`: its list of Unicode scalar values. Parsing
takes characters from the front, so what is left of a text is always one of its suffixes and a
position in it is the length of what stands before. Positions that are shown to a user count the
bytes of the UTF-8 form (`Text.utf8Length`).
-/

set_option autoImplicit false

namespace HclSyntax

/-- Text is its sequence of characters. -/
abbrev Text : Type := List Char

namespace Text

/-- The number of bytes in the UTF-8 form of a text. -/
def utf8Length : Text → Nat
  | [] => 0
  | c :: rest => c.utf8Size + utf8Length rest

/-- The empty text has no bytes. -/
@[simp]
theorem utf8Length_nil : utf8Length [] = 0 := rfl

/-- The bytes of the first character are counted first. -/
@[simp]
theorem utf8Length_cons (c : Char) (text : Text) :
    utf8Length (c :: text) = c.utf8Size + utf8Length text := rfl

/-- The bytes of two texts in a row add up. -/
@[simp]
theorem utf8Length_append (a b : Text) : utf8Length (a ++ b) = utf8Length a + utf8Length b := by
  induction a with
  | nil => simp
  | cons c rest ih => simp [ih, Nat.add_assoc]

/-- What is left of a text after the white space at its start. -/
def trimStart (text : Text) : Text :=
  text.dropWhile isWhitespace

/-- Trimming leaves an end of the text. -/
theorem trimStart_suffix (text : Text) : trimStart text <:+ text :=
  List.dropWhile_suffix isWhitespace

/-- Trimming makes no text longer. -/
theorem length_trimStart_le (text : Text) : (trimStart text).length ≤ text.length :=
  (trimStart_suffix text).length_le

/-- What is left of a text without the white space at its end. -/
def trimEnd (text : Text) : Text :=
  (trimStart text.reverse).reverse

/-- A text without the white space around it. -/
def trim (text : Text) : Text :=
  trimEnd (trimStart text)

/-- A text is blank when it holds nothing but white space. -/
def isBlank (text : Text) : Bool :=
  text.all isWhitespace

/-- A number in decimal digits. -/
def ofNat (n : Nat) : Text :=
  Nat.toDigits 10 n

/-- The pieces one after the other with the separator between neighbours. -/
def join (separator : Text) : List Text → Text
  | [] => []
  | [piece] => piece
  | piece :: next :: rest => piece ++ separator ++ join separator (next :: rest)

/-- The first line of a text, with the line feed that ends it, and what follows. A text without a
line feed is one line. -/
def splitLine : Text → Text × Text
  | [] => ([], [])
  | c :: rest =>
    if c = '\n' then ([c], rest)
    else ((splitLine rest).map (c :: ·) id)

/-- The two parts of `splitLine` are the text. -/
theorem splitLine_append (text : Text) : (splitLine text).1 ++ (splitLine text).2 = text := by
  induction text with
  | nil => rfl
  | cons c rest ih =>
    unfold splitLine
    split
    · rfl
    · simpa using ih

/-- What follows the first line is shorter than a text that is not empty. -/
theorem splitLine_shortens {text : Text} (h : text ≠ []) :
    (splitLine text).2.length < text.length := by
  have split := congrArg List.length (splitLine_append text)
  rw [List.length_append] at split
  have first : 0 < (splitLine text).1.length := by
    cases text with
    | nil => exact absurd rfl h
    | cons c rest => unfold splitLine; split <;> simp
  omega

/-- The text before the first occurrence of a word, and what follows the word. -/
def splitAtWord (text word : Text) : Option (Text × Text) :=
  match word.isPrefixOf? text with
  | some after => some ([], after)
  | none =>
    match text with
    | [] => none
    | c :: rest => (splitAtWord rest word).map fun (before, after) => (c :: before, after)

/-- The longest beginning of a text that takes at most `bytes` bytes. -/
def takeBytes : Nat → Text → Text
  | _, [] => []
  | bytes, c :: rest =>
    if c.utf8Size ≤ bytes then c :: takeBytes (bytes - c.utf8Size) rest else []

/-- Cutting at the byte length of a beginning gives that beginning. -/
theorem takeBytes_utf8Length (a b : Text) : takeBytes (utf8Length a) (a ++ b) = a := by
  induction a with
  | nil =>
    cases b with
    | nil => rfl
    | cons c rest =>
      have : 0 < c.utf8Size := c.utf8Size_pos
      simp [takeBytes, Nat.not_le.mpr this]
  | cons c rest ih => simp [takeBytes, ih]

end Text

end HclSyntax
