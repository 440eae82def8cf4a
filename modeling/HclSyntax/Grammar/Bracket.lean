import HclSyntax.Grammar.Rule
import HclSyntax.Text.Quoted

/-!
# `HclSyntax.Grammar.Bracket`: text with balanced brackets

The parts of for expressions and of list indices are kept as text. Where such a part ends is decided
by counting brackets, all kinds alike, and by stepping over quoted strings: `balancedSplit` stops at
the first place outside brackets where its stop test holds or where a bracket closes that was not
opened.
-/

set_option autoImplicit false

namespace HclSyntax.Grammar

open Rule

/-- The characters that open a bracket. -/
def isOpeningBracket (c : Char) : Bool :=
  c == '(' || c == '[' || c == '{'

/-- The characters that close a bracket. -/
def isClosingBracket (c : Char) : Bool :=
  c == ')' || c == ']' || c == '}'

/-- The text up to the first place, with `depth` brackets open at its start, that is outside all
brackets and either satisfies `stop` or closes one bracket more; and what follows. Nothing if the
text or a quoted string in it ends before. -/
def balancedSplit (stop : Text → Bool) (depth : Nat) (text : Text) : Option (Text × Text) :=
  match text with
  | [] => none
  | c :: rest =>
    if depth = 0 && stop (c :: rest) then some ([], c :: rest)
    else if c = '"' then
      match h : Text.quotedSpan (c :: rest) with
      | none => none
      | some (span, after) =>
        have : after.length < rest.length + 1 := Text.quotedSpan_shortens h
        (balancedSplit stop depth after).map fun (inside, tail) => (span ++ inside, tail)
    else if isClosingBracket c then
      match depth with
      | 0 => some ([], c :: rest)
      | outer + 1 =>
        (balancedSplit stop outer rest).map fun (inside, tail) => (c :: inside, tail)
    else
      let inner := if isOpeningBracket c then depth + 1 else depth
      (balancedSplit stop inner rest).map fun (inside, tail) => (c :: inside, tail)
termination_by text.length
decreasing_by all_goals simp only [List.length_cons]; omega

/-- Text with balanced brackets up to a place where `stop` holds or an unmatched bracket closes. -/
def balanced (stop : Text → Bool) : Rule Text :=
  fun text =>
    match balancedSplit stop 0 text with
    | some (inside, after) => .matched inside after
    | none => .mismatch text

/-- Text with balanced brackets up to an unmatched closing bracket. -/
def balancedToBracket : Rule Text :=
  balanced fun _ => false

/-- An index in square brackets with something in it. -/
def listIndex : Rule Text := do
  let content ← suchThat (do let _ ← char '['; balancedToBracket) fun content => !content.isBlank
  let _ ← char ']'
  return '[' :: content ++ [']']

end HclSyntax.Grammar
