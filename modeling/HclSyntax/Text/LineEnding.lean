import HclSyntax.Text.Basic

/-!
# `HclSyntax.Text.LineEnding`: one kind of line break

The grammar knows the line feed as its only line break. Files may end their lines with a carriage
return and a line feed, or with a carriage return alone; `Text.normalizeLineEndings` turns both into
line feeds, pairs first, so that a pair gives one line break and not two.
-/

set_option autoImplicit false

namespace HclSyntax.Text

/-- Writes each carriage return that a line feed follows, together with that line feed, as one line
feed. -/
def joinCarriagePairs : Text → Text
  | [] => []
  | [c] => [c]
  | c :: d :: rest =>
    if c = '\r' ∧ d = '\n' then '\n' :: joinCarriagePairs rest
    else c :: joinCarriagePairs (d :: rest)

/-- Writes each carriage return as a line feed. -/
def replaceCarriageReturns (text : Text) : Text :=
  text.map fun c => if c = '\r' then '\n' else c

/-- Writes every line ending as a line feed. -/
def normalizeLineEndings (text : Text) : Text :=
  replaceCarriageReturns (joinCarriagePairs text)

end HclSyntax.Text
