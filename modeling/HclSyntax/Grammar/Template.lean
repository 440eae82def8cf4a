import HclSyntax.Grammar.Declaration

/-!
# `HclSyntax.Grammar.Template`: values and declarations

`value` and `declarations` are the rules of the grammar with no rule left open: what stands inside
brackets is read by these two again. The text inside a bracket is shorter than the text from the
bracket on, so both recurse on the length of the text. The test for that length is part of the
definitions and never turns anything down.
-/

set_option autoImplicit false

namespace HclSyntax.Grammar

open Rule

mutual

/-- A single value. -/
def value : Rule Node :=
  fun text =>
    valueOver
      { value := fun rest => if rest.length < text.length then value rest else .mismatch rest
        declarations := fun rest =>
          if rest.length < text.length then declarations rest else .mismatch rest }
      text
termination_by text => text.length

/-- A sequence of declarations. -/
def declarations : Rule (List Node) :=
  fun text =>
    declarationsOver
      { value := fun rest => if rest.length < text.length then value rest else .mismatch rest
        declarations := fun rest =>
          if rest.length < text.length then declarations rest else .mismatch rest }
      text
termination_by text => text.length

end

/-- The rules for what stands inside brackets. -/
def inner : Inner := ⟨value, declarations⟩

end HclSyntax.Grammar
