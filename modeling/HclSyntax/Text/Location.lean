import HclSyntax.Text.Basic

/-!
# `HclSyntax.Text.Location`: places in a text

A `Location` is what a message shows of a place: the number of bytes before it, its line and its
column. Lines and columns count from one; a column counts characters since the last line feed.
-/

set_option autoImplicit false

namespace HclSyntax

/-- A place in a text, as it is shown to a reader. -/
structure Location where
  /-- Bytes of the UTF-8 form before the place. -/
  offset : Nat
  /-- One more than the line feeds before the place. -/
  line : Nat
  /-- One more than the characters between the last line feed and the place. -/
  column : Nat
deriving DecidableEq, Repr

namespace Text

/-- The line of the place right after `before`. -/
def lineAfter (before : Text) : Nat :=
  before.count '\n' + 1

/-- The column of the place right after `before`. -/
def columnAfter (before : Text) : Nat :=
  (before.reverse.takeWhile (· ≠ '\n')).length + 1

/-- The line and column of a byte offset. Offsets past the end mean the end. -/
def position (text : Text) (offset : Nat) : Nat × Nat :=
  let before := takeBytes offset text
  (lineAfter before, columnAfter before)

end Text

/-- The place where `rest`, an end of `text`, begins. -/
def Location.before (text rest : Text) : Location :=
  let offset := text.utf8Length - rest.utf8Length
  let place := text.position offset
  ⟨offset, place.1, place.2⟩

end HclSyntax
