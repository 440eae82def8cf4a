import HclSyntax.Proofs.Grammar.Account
import HclSyntax.Proofs.RoundTrip.Operand
import Mathlib

/-!
# `HclSyntax.Proofs.RoundTrip.Reread`: what is kept as text is read back

Heredocs and for expressions are kept as text and printed by themselves, without the tree around them.
Whatever text one of them was read from, the same rule reads its printed form as the same heredoc or
loop and leaves what follows: a heredoc in its block form as long as what follows may follow a closing
marker, and in its compact form in any case (`heredoc_reread`), a for expression in any case
(`forLoop_reread`).

A for expression is not printed as it was written, since its parts are kept trimmed. What differs is
white space only, which `Text.visible` takes away.
-/

set_option autoImplicit false

namespace HclSyntax

namespace Grammar

/-! ### Heredocs -/

/-- A heredoc that was read is read back from its block form in front of any text whose first line may
follow a closing marker, and from its compact form in front of any text at all. -/
theorem heredoc_reread {text rest : Text} {doc : Heredoc}
    (h : heredoc text = .matched doc rest) :
    (∀ level follow, ClosesLine follow →
        heredoc (doc.source (.block level) ++ follow) = .matched doc follow)
      ∧ ∀ follow, heredoc (doc.source .compact ++ follow) = .matched doc ('\n' :: follow) := by
  have isHeredoc : IsHeredoc doc := ⟨text, rest, h⟩
  refine ⟨fun level follow closes => heredoc_append isHeredoc level closes, fun follow => ?_⟩
  rw [source_compact, List.append_assoc]
  exact heredoc_append isHeredoc 0 (closesLine_feed follow)

/-- A marker that an indented line of the body starts with, and a closing line with a bracket. -/
theorem heredoc_reread_indented :
    let doc : Heredoc := ⟨"EOF".toList, true, "  EOFX\n".toList⟩
    heredoc "<<-EOF \n  EOFX\n\tEOF ),\nx".toList = .matched doc " ),\nx".toList
      ∧ heredoc (doc.source (.block 2) ++ " ]\ny".toList) = .matched doc " ]\ny".toList
      ∧ heredoc (doc.source .compact ++ "EOF".toList) = .matched doc "\nEOF".toList := by
  have found : heredoc "<<-EOF \n  EOFX\n\tEOF ),\nx".toList
      = .matched ⟨"EOF".toList, true, "  EOFX\n".toList⟩ " ),\nx".toList := by cbv
  obtain ⟨block, compact⟩ := heredoc_reread found
  exact ⟨found, block 2 _ (by unfold ClosesLine; cbv), compact _⟩

end Grammar

/-! ### White space -/

/-- A text without its white space. -/
def Text.visible (text : Text) : Text :=
  text.filter (!isWhitespace ·)

namespace Text

/-- What is visible of a text is visible part by part. -/
theorem visible_append (front back : Text) :
    visible (front ++ back) = visible front ++ visible back :=
  List.filter_append ..

/-- A character that is no white space is visible. -/
theorem visible_cons {c : Char} (shown : isWhitespace c = false) (rest : Text) :
    visible (c :: rest) = c :: visible rest :=
  List.filter_cons_of_pos (by simp [shown])

/-- The same character may be put in front of two texts that look the same. -/
theorem visible_cons_congr (c : Char) {front back : Text} (h : visible front = visible back) :
    visible (c :: front) = visible (c :: back) := by
  calc visible (c :: front) = visible [c] ++ visible front := visible_append [c] front
    _ = visible [c] ++ visible back := by rw [h]
    _ = visible (c :: back) := (visible_append [c] back).symm

/-- White space is not visible. -/
theorem visible_space {space : Text} (h : AllSpace space) : visible space = [] := by
  simpa [visible, AllSpace] using h

/-- Trimming drops nothing that is visible. -/
theorem visible_trim (text : Text) : visible (trim text) = visible text := by
  obtain ⟨front, back, hfront, hback, split, -⟩ := trim_split text
  conv_rhs => rw [split]
  rw [visible_append, visible_append, visible_space hfront, visible_space hback, List.nil_append,
    List.append_nil]

end Text

/-! ### For expressions -/

namespace Grammar

open Text

/-- The white space around a comma and at the ends of the parts is all that is lost. -/
theorem visible_of_spellsBindings {bindings span : Text} (h : SpellsBindings bindings span) :
    visible span = visible bindings := by
  rcases h with rfl | ⟨first, second, space, after, isSpace, isAfter, rfl, rfl⟩
  · rfl
  · have comma : visible ", ".toList = [','] := by decide
    simp only [visible_append, visible_cons (c := ',') (by decide), visible_space isSpace,
      visible_space isAfter, comma, List.append_assoc, List.nil_append, List.cons_append]

/-- A condition looks as it was written. -/
theorem visible_of_spellsCondition {condition span : Text} (h : SpellsCondition condition span) :
    visible span = visible condition := by
  rcases h with ⟨rfl, rfl⟩ | ⟨space, inside, isSpace, rfl, rfl⟩
  · rfl
  · have word : visible "if ".toList = visible "if".toList := by decide
    simp only [visible_append, visible_space isSpace, visible_trim, word, List.nil_append]

/-- A for expression is printed as it was written, up to white space. -/
theorem visible_of_spells {loop : ForLoop} {span : Text} (h : loop.Spells span) :
    visible span = visible loop.source := by
  obtain ⟨bindings, collection, statements, condition, space₁, space₂, space₃, space₄, space₅, space₆,
    names, part, yields, tests, isSpace, rfl⟩ := h
  have noSpace (space : Text)
      (listed : space ∈ [space₁, space₂, space₃, space₄, space₅, space₆]) : visible space = [] :=
    visible_space (isSpace space listed)
  -- The spaces that the printer puts around the words are not visible.
  have front : visible "for ".toList = visible "for".toList := by decide
  have keyword : visible " in ".toList = visible "in".toList := by decide
  have colon : visible " : ".toList = [':'] := by decide
  have test : visible (if loop.condition.isEmpty then [] else ' ' :: loop.condition)
      = visible loop.condition := by
    split
    · next empty => rw [List.isEmpty_iff.mp empty]
    · rfl
  have colonHere (rest : Text) : visible (':' :: rest) = ':' :: visible rest :=
    visible_cons (by decide) rest
  unfold ForLoop.source ForLoop.header
  simp only [List.cons_append, List.append_assoc]
  refine visible_cons_congr loop.opening ?_
  simp only [visible_append, front, keyword, colon, test, colonHere, visible_of_spellsBindings names,
    visible_of_spellsCondition tests, ← part, ← yields, visible_trim, noSpace space₁ (by simp),
    noSpace space₂ (by simp), noSpace space₃ (by simp), noSpace space₄ (by simp),
    noSpace space₅ (by simp), noSpace space₆ (by simp), List.nil_append, List.cons_append]

/-- A for expression that was read is read back from its printed form in front of any text, and its
printed form is the text it was read from, up to white space. -/
theorem forLoop_reread {rule : Rule ForLoop} (isRule : rule = forObject ∨ rule = forList)
    {text rest : Text} {loop : ForLoop} (h : rule text = .matched loop rest) :
    (∀ follow, rule (loop.source ++ follow) = .matched loop follow)
      ∧ ∃ span, text = span ++ rest ∧ visible span = visible loop.source := by
  obtain ⟨openingBracket, closingBracket, closes, rfl⟩ : ∃ openingBracket closingBracket,
      isClosingBracket closingBracket = true ∧ rule = forLoop openingBracket closingBracket := by
    rcases isRule with rfl | rfl
    · exact ⟨'{', '}', by decide, rfl⟩
    · exact ⟨'[', ']', by decide, rfl⟩
  obtain ⟨isForLoop, rfl, rfl⟩ := isForLoop_of_matched closes h
  obtain ⟨span, same, spells⟩ := spells_of_forLoop h
  exact ⟨forLoop_source isForLoop, span, same, visible_of_spells spells⟩

/-- Two names, a nested bracket and string in the part that is yielded, and a condition that no space
separates from its word. -/
theorem forLoop_reread_condition :
    let loop : ForLoop := ⟨'\x7b', '\x7d', "k, v".toList, "m".toList, "f(\" if \") => v".toList,
      "if (v)".toList⟩
    forObject "\x7bfor k ,v in m: f(\" if \") => v\nif(v) \x7d;".toList = .matched loop ";".toList
      ∧ forObject (loop.source ++ "\x7d".toList) = .matched loop "\x7d".toList := by
  have found : forObject "\x7bfor k ,v in m: f(\" if \") => v\nif(v) \x7d;".toList
      = .matched ⟨'\x7b', '\x7d', "k, v".toList, "m".toList, "f(\" if \") => v".toList,
        "if (v)".toList⟩ ";".toList := by cbv
  obtain ⟨again, -⟩ := forLoop_reread (.inl rfl) found
  exact ⟨found, again _⟩

end Grammar

end HclSyntax
