import HclSyntax.Proofs.Parse.RoundTrip
import HclSyntax.Proofs.RoundTrip.Kept

/-!
# `HclSyntax.Proofs.Parse.Printed`: printing what was read

A template that was read does not always print as a text with the same tree, but the tree that its
printed form tells is known: it is `Document.settled`. Where that tree is `Told` everywhere, the printed
form is read as it, and it prints as the same text again, on lines (`render_lines_stable`) and on one
line (`render_compact_stable`). It is equal to the tree that was printed exactly if all of that tree is
`Kept` (`render_lines_same_iff`).

Neither holds of all trees. There are templates whose printed form is not read at all
(`not_render_lines_stable`, `not_render_compact_stable`), and templates whose printed form is read as
another tree (`not_render_lines_same`).
-/

set_option autoImplicit false

namespace HclSyntax

open Grammar Node

/-- The printed form of a document that was read is read as the tree that it tells. -/
theorem parse_render_settled {text : Text} {document : Document} {layout : Layout}
    (h : parse text = .ok document)
    (told : (document.settled layout.isCompact).root.Everywhere (Told layout.isCompact)) :
    parse (document.render layout) = .ok (document.settled layout.isCompact) := by
  obtain ⟨rest, found, -⟩ := declarations_of_parse h
  have inside := isDeclaration_of_declarations found
  rw [← document.render_settled]
  exact parse_render (Document.isDeclaration_settled inside) (document.faithful_settled inside told)

/-! ### On lines -/

/-- What was read from a template prints on lines as a text that is read and prints as itself. -/
theorem render_lines_stable {text : Text} {document : Document} (h : parse text = .ok document)
    (told : (document.settled false).root.Everywhere (Told false)) :
    parse (document.render (.ofIndent 0)) = .ok (document.settled false)
      ∧ (document.settled false).render (.ofIndent 0) = document.render (.ofIndent 0) :=
  ⟨@parse_render_settled text document (.ofIndent 0) h told,
    @Document.render_settled document (.ofIndent 0)⟩

/-- The sign of a number that has a space behind it does not stand apart in the second tree. -/
theorem render_lines_stable_sign :
    ∃ document second, parse "a = - 1\nb = f(x, [true])".toList = .ok document
      ∧ document.render (.ofIndent 0) = "a = -1\nb = f(x, [\n  true\n])".toList
      ∧ parse (document.render (.ofIndent 0)) = .ok second
      ∧ second.render (.ofIndent 0) = document.render (.ofIndent 0) := by
  have found : parse "a = - 1\nb = f(x, [true])".toList = .ok ⟨[
      .property .unquotedExpression (.bare ['a'])
        (.unquotedExpression [.mathSymbol ['-'], .numberOrBool ['1']]),
      .property .unquotedExpression (.bare ['b'])
        (.function (some ['f']) [.unquotedString ['x'], .list [.numberOrBool "true".toList]])]⟩ := by
    cbv
  obtain ⟨again, same⟩ := render_lines_stable found (by decide +kernel)
  exact ⟨_, _, found, by decide, again, same⟩

/-- A list of the word `for` prints with a line break behind the word, and is read as the start of a
for expression. -/
theorem not_render_lines_stable :
    ¬ ∀ (text : Text) (document : Document), parse text = .ok document →
      ∃ second, parse (document.render (.ofIndent 0)) = .ok second
        ∧ second.render (.ofIndent 0) = document.render (.ofIndent 0) := by
  intro stable
  have found : parse "x = [for]".toList = .ok ⟨[
      .property .list (.bare ['x']) (.list [.unquotedString "for".toList])]⟩ := by cbv
  obtain ⟨second, again, -⟩ := stable _ _ found
  have refused : (parse "x = [\n  for\n]".toList).toOption = none := by cbv
  have printed : Document.render (.ofIndent 0) ⟨[
      .property .list (.bare ['x']) (.list [.unquotedString "for".toList])]⟩
      = "x = [\n  for\n]".toList := by decide
  rw [printed] at again
  rw [again] at refused
  cases refused

/-! ### On one line -/

/-- What was read from a template prints on one line as a text that is read and prints as itself. -/
theorem render_compact_stable {text : Text} {document : Document} (h : parse text = .ok document)
    (told : (document.settled true).root.Everywhere (Told true)) :
    parse (document.render (.ofIndent (-1))) = .ok (document.settled true)
      ∧ (document.settled true).render (.ofIndent (-1)) = document.render (.ofIndent (-1)) :=
  ⟨@parse_render_settled text document (.ofIndent (-1)) h told,
    @Document.render_settled document (.ofIndent (-1))⟩

/-- A comment that ends with its line is read as a bracketed one, and prints as one again. -/
theorem render_compact_stable_comment :
    ∃ document second, parse "# note\na = [\n  - 1\n]".toList = .ok document
      ∧ document.render (.ofIndent (-1)) = "/* note*/, a = [-1]".toList
      ∧ parse (document.render (.ofIndent (-1))) = .ok second
      ∧ second.render (.ofIndent (-1)) = document.render (.ofIndent (-1)) := by
  have found : parse "# note\na = [\n  - 1\n]".toList = .ok ⟨[
      .comment .hash " note".toList, .property .list (.bare ['a'])
        (.list [.unquotedExpression [.mathSymbol ['-'], .numberOrBool ['1']]])]⟩ := by cbv
  obtain ⟨again, same⟩ := render_compact_stable found (by decide +kernel)
  exact ⟨_, _, found, by decide, again, same⟩

/-- A comment that ends with its line may hold the marker that ends a bracketed comment. -/
theorem not_render_compact_stable :
    ¬ ∀ (text : Text) (document : Document), parse text = .ok document →
      ∃ second, parse (document.render (.ofIndent (-1))) = .ok second
        ∧ second.render (.ofIndent (-1)) = document.render (.ofIndent (-1)) := by
  intro stable
  have found : parse "# */".toList = .ok ⟨[.comment .hash " */".toList]⟩ := by cbv
  obtain ⟨second, again, -⟩ := stable _ _ found
  have refused : (parse "/* */*/".toList).toOption = none := by cbv
  have printed : Document.render (.ofIndent (-1)) ⟨[.comment .hash " */".toList]⟩
      = "/* */*/".toList := by decide
  rw [printed] at again
  rw [again] at refused
  cases refused

/-! ### The same tree -/

/-- The printed form of what was read is read as an equal tree exactly if all of the tree is kept. -/
theorem render_lines_same_iff {text : Text} {document second : Document} (h : parse text = .ok document)
    (told : (document.settled false).root.Everywhere (Told false))
    (again : parse (document.render (.ofIndent 0)) = .ok second) :
    (second.root == document.root) = true ↔ document.root.Everywhere (Kept false) := by
  have settles : parse (document.render (.ofIndent 0)) = .ok (document.settled false) :=
    @parse_render_settled text document (.ofIndent 0) h told
  obtain rfl : second = document.settled false := Except.ok.inj (again.symm.trans settles)
  have shaped := parse_shaped h
  calc ((document.settled false).root == document.root) = true
    _ ↔ (settled false document.root).view = document.root.view := View.agrees_iff _ _
    _ ↔ settled false document.root = document.root :=
      ⟨settled_eq_self_of_view shaped, congrArg Node.view⟩
    _ ↔ document.root.Everywhere (Kept false) := settled_eq_self_iff shaped

/-- A sign in front of a call is printed in front of it, and stays a term of its own. -/
theorem render_lines_same_call :
    ∃ document second, parse "a = - f( x )".toList = .ok document
      ∧ parse (document.render (.ofIndent 0)) = .ok second
      ∧ document.root.Everywhere (Kept false) ∧ (second.root == document.root) = true := by
  have found : parse "a = - f( x )".toList = .ok ⟨[.property .unquotedExpression (.bare ['a'])
      (.unquotedExpression [.mathSymbol ['-'], .function (some ['f']) [.unquotedString ['x']]])]⟩ := by
    cbv
  have printed : Document.render (.ofIndent 0) ⟨[.property .unquotedExpression (.bare ['a'])
      (.unquotedExpression [.mathSymbol ['-'], .function (some ['f']) [.unquotedString ['x']]])]⟩
      = "a = -f(x)".toList := by decide
  have again : parse "a = -f(x)".toList = .ok ⟨[.property .unquotedExpression (.bare ['a'])
      (.unquotedExpression [.mathSymbol ['-'], .function (some ['f']) [.unquotedString ['x']]])]⟩ := by
    cbv
  rw [← printed] at again
  refine ⟨_, _, found, again, by decide +kernel, ?_⟩
  exact (render_lines_same_iff found (by decide +kernel) again).mpr (by decide +kernel)

/-- A number with a sign in front is an expression, and prints as a number that has the sign. -/
theorem not_render_lines_same :
    ¬ ∀ (text : Text) (document second : Document), parse text = .ok document →
      parse (document.render (.ofIndent 0)) = .ok second →
        (second.root == document.root) = true := by
  intro same
  have found : parse "a = - 1".toList = .ok ⟨[.property .unquotedExpression (.bare ['a'])
      (.unquotedExpression [.mathSymbol ['-'], .numberOrBool ['1']])]⟩ := by cbv
  have printed : Document.render (.ofIndent 0) ⟨[.property .unquotedExpression (.bare ['a'])
      (.unquotedExpression [.mathSymbol ['-'], .numberOrBool ['1']])]⟩ = "a = -1".toList := by decide
  have again : parse "a = -1".toList = .ok ⟨[.property .string (.bare ['a'])
      (.numberOrBool "-1".toList)]⟩ := by cbv
  exact absurd (same _ _ _ found (printed ▸ again)) (by decide)

end HclSyntax
