import HclSyntax.Grammar.Rule
import HclSyntax.Node.Basic

/-!
# `HclSyntax.Grammar.Comment`: comments

Comments are nodes of the tree. They may stand between declarations, elements and members, and there
the grammar asks for them by `comment`; everywhere else the text of a comment is just text.
-/

set_option autoImplicit false

namespace HclSyntax.Grammar

open Rule

/-- The marker of a comment that ends with its line. -/
def commentStyle : Rule CommentStyle :=
  (do let _ ← word CommentStyle.hash.marker; return .hash)
    <|> (do let _ ← word CommentStyle.doubleSlash.marker; return .doubleSlash)

/-- A comment up to the end of its line, without the line feed. -/
def lineComment : Rule Node := do
  let style ← commentStyle
  let text ← takeWhile (· != '\n')
  return .comment style text

/-- A comment in brackets. The place of the fault is right after the opening bracket. -/
def bracketedComment : Rule Node := do
  let _ ← word "/*".toList
  fun text =>
    match text.splitAtWord "*/".toList with
    | some (inside, after) => .matched (.multilineComment inside) after
    | none => .committed text (.unterminated .comment)

/-- A comment of either form. -/
def comment : Rule Node :=
  lineComment <|> bracketedComment

end HclSyntax.Grammar
