import HclSyntax.Grammar.Template
import HclSyntax.ParseError

/-!
# `HclSyntax.Parse`: from text to a tree

`parse` reads a whole template and `parseValue` a single value. Both want all of the text but the
white space around it; line endings are expected to be line feeds.
-/

set_option autoImplicit false

namespace HclSyntax

open Grammar

variable {α : Type}

/-- Applies a rule to a text from `start` on and wants nothing but white space after it. -/
def parseAll (rule : Rule α) (expected : Expectation) (text start : Text) :
    Except ParseError α :=
  match rule start with
  | .matched value rest =>
    if rest.trimStart.isEmpty then .ok value
    else .error (.unexpected (.before text rest.trimStart) expected)
  | .mismatch rest => .error (.unexpected (.before text rest) .validSyntax)
  | .committed rest fault => .error (.ofFault text rest fault)

/-- Reads a whole template. -/
def parse (text : Text) : Except ParseError Document :=
  (parseAll declarations .declaration text text).map fun found => ⟨found⟩

/-- Reads a single value, such as an element of a list or the right hand side of a property. -/
def parseValue (text : Text) : Except ParseError Node :=
  parseAll value .endOfValue text text.trimStart

end HclSyntax
