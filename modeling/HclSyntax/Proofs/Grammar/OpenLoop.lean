import HclSyntax.Proofs.Grammar.Shape
import HclSyntax.Proofs.Grammar.Tentative
import HclSyntax.Proofs.Rule.Fault
import Mathlib

/-!
# `HclSyntax.Proofs.Grammar.OpenLoop`: for expressions that are never closed

Behind its names and the word `in` a for expression is committed: where no bracket closes up to the
end of the text (`NeverCloses`), the fault is that the for expression never ends, and its place is the
end of the text. `forLoop_neverCloses_iff` says how far this holds. The collection and the statements
are read by `loopPart`, which commits. The condition is read by a rule that may be left out, so a
condition that never ends is taken for none, and its word `if` for a wrong closing bracket: the rule
mismatches there, and what is reported does not mention the for expression.

The three scans stop at different places, but they go over the same brackets and strings, so behind
each of them the rest of the text still never closes (`NeverCloses.behind`).
-/

set_option autoImplicit false

namespace HclSyntax.Grammar

open Rule

/-! ### Text in which no bracket closes -/

/-- The text ends before a bracket closes in it that was not opened in it. -/
def NeverCloses (text : Text) : Prop :=
  balancedToBracket.Mismatches text

/-- What is passed over up to some stop can be passed over with no stop at all. -/
theorem Passes.toBracket {stop : Text → Bool} {inside after : Text} {depth : Nat}
    (passes : Passes stop after depth inside) (other : Text) :
    Passes (fun _ => false) other depth inside := by
  induction passes with
  | nil => exact .nil
  | quoted quoted _ _ ih => exact .quoted quoted (fun _ => rfl) ih
  | closing closes _ ih => exact .closing closes ih
  | opening opens _ _ ih => exact .opening opens (fun _ => rfl) ih
  | plain notQuote notClosing notOpening _ _ ih =>
    exact .plain notQuote notClosing notOpening (fun _ => rfl) ih

/-- Plain characters are passed over. -/
theorem passes_plain {text : Text} (plain : ∀ c ∈ text, c ≠ '"' ∧ isClosingBracket c = false
    ∧ isOpeningBracket c = false) (after : Text) : Passes (fun _ => false) after 0 text := by
  induction text with
  | nil => exact .nil
  | cons c rest ih =>
    obtain ⟨notQuote, notClosing, notOpening⟩ := plain c List.mem_cons_self
    exact .plain notQuote notClosing notOpening (fun _ => rfl)
      (ih fun d hd => plain d (List.mem_cons_of_mem _ hd))

/-- Behind what is passed over no bracket closes either. -/
theorem NeverCloses.behind {stop : Text → Bool} {inside after other : Text}
    (h : NeverCloses (inside ++ after)) (passes : Passes stop other 0 inside) :
    NeverCloses after := by
  rcases answers balancedToBracket after with mismatch | ⟨more, rest, matched⟩
  · exact mismatch
  · obtain ⟨rfl, goesOn, stops⟩ := balancedToBracket_matched_iff.mp matched
    have whole : balancedToBracket (inside ++ (more ++ rest)) = .matched (inside ++ more) rest :=
      balancedToBracket_matched_iff.mpr
        ⟨(List.append_assoc ..).symm, (passes.toBracket _).append goesOn, stops⟩
    exact absurd h (not_mismatches_of_matched whole)

/-- Nor does a bracket close behind characters that are no brackets and no quotes. -/
theorem NeverCloses.behind_plain (front : Text) {rest : Text} (h : NeverCloses (front ++ rest))
    (plain : ∀ c ∈ front, c ≠ '"' ∧ isClosingBracket c = false ∧ isOpeningBracket c = false) :
    NeverCloses rest :=
  h.behind (passes_plain plain [])

/-- White space at the start makes no difference. -/
theorem NeverCloses.trimStart {text : Text} (h : NeverCloses text) :
    NeverCloses text.trimStart := by
  obtain ⟨space, isSpace, split⟩ := Text.trimStart_split text
  rw [split] at h
  refine NeverCloses.behind_plain space h fun c hc => ?_
  -- White space is no bracket and no quote.
  have apart {holds : Char → Bool} (marks : holds c = true → isWhitespace c = false) :
      holds c = false := by
    rw [← Bool.not_eq_true]
    intro mark
    simp [isSpace c hc] at marks
    simp [marks] at mark
  refine ⟨?_, apart fun closes => isWhitespace_bracket (.inl closes),
    apart fun opens => isWhitespace_bracket (.inr opens)⟩
  rintro rfl
  exact absurd (isSpace '"' hc) (by decide)

/-- Such a text does not start with a closing bracket. -/
theorem NeverCloses.notClosing {c : Char} {rest : Text} (h : NeverCloses (c :: rest)) :
    isClosingBracket c = false := by
  rw [← Bool.not_eq_true]
  intro closes
  have found : balancedToBracket (c :: rest) = .matched [] (c :: rest) :=
    balancedToBracket_matched_iff.mpr ⟨rfl, .nil, stopsAt_cons_iff.mpr (.inr closes)⟩
  exact not_mismatches_of_matched found h

/-- A part of a for expression in such a text runs to the end of the text, or up to where its stop
test holds. -/
theorem loopPart_of_neverCloses {text : Text} (h : NeverCloses text) (stop : Text → Bool) :
    loopPart stop text = .committed [] (.unterminated .forExpression)
      ∨ ∃ inside after, loopPart stop text = .matched inside after ∧ stop after = true
        ∧ NeverCloses after := by
  cases found : loopPart stop text with
  | mismatch place =>
    unfold loopPart at found
    split at found <;> cases found
  | committed place fault =>
    unfold loopPart at found
    split at found <;> cases found
    exact .inl rfl
  | matched inside after =>
    obtain ⟨rfl, passes, c, rest, rfl, stands⟩ := loopPart_matched_iff.mp found
    have never := h.behind passes
    rw [← isClosingBracket_iff_mem] at stands
    exact .inr ⟨inside, c :: rest, rfl, stands.resolve_right (by simp [never.notClosing]), never⟩

/-! ### For expressions that are open at the end of the text -/

/-- The text starts with the bracket and the names of a for expression, the word `in` and white space,
and goes on with `rest`. -/
def OpensLoop (openingBracket : Char) (text rest : Text) : Prop :=
  ∃ behindOpening behindFor bindings behindBindings space,
    text = openingBracket :: behindOpening
      ∧ forKeyword behindOpening = .matched () behindFor
      ∧ loopBindings behindFor.trimStart = .matched bindings behindBindings
      ∧ behindBindings.trimStart = "in".toList ++ space :: rest
      ∧ isWhitespace space = true

/-- Behind the word `in` of a for expression, its condition starts in the text: outside brackets and
strings stands a colon, and behind it, outside brackets and strings as well, the word `if`. -/
def ReachesCondition (rest : Text) : Prop :=
  ∃ collection behind statements after, rest.trimStart = collection ++ ':' :: behind
    ∧ Passes (fun rest => rest.head? == some ':') (':' :: behind) 0 collection
    ∧ Text.trimStart behind = statements ++ after
    ∧ Passes startsCondition after 0 statements ∧ startsCondition after = true

/-- The condition starts where the rule for for expressions reads up to. -/
theorem reachesCondition_iff {rest : Text} :
    ReachesCondition rest
      ↔ ∃ collection behind statements after,
          loopPart (fun rest => rest.head? == some ':') rest.trimStart
              = .matched collection (':' :: behind)
            ∧ loopPart startsCondition (Text.trimStart behind) = .matched statements after
            ∧ startsCondition after = true := by
  constructor
  · rintro ⟨collection, behind, statements, after, split, collects, again, states, starts⟩
    obtain ⟨⟨c, tail, rfl, -⟩, -⟩ := startsCondition_iff.mp starts
    exact ⟨collection, behind, statements, c :: tail,
      loopPart_matched_iff.mpr ⟨split, collects, ':', behind, rfl, .inl rfl⟩,
      loopPart_matched_iff.mpr ⟨again, states, c, tail, rfl, .inl starts⟩, starts⟩
  · rintro ⟨collection, behind, statements, after, part, yields, starts⟩
    obtain ⟨split, collects, -⟩ := loopPart_matched_iff.mp part
    obtain ⟨again, states, -⟩ := loopPart_matched_iff.mp yields
    exact ⟨collection, behind, statements, after, split, collects, again, states, starts⟩

/-- A for expression from its collection on. -/
theorem forLoop_of_opensLoop {openingBracket : Char} {text rest : Text}
    (opens : OpensLoop openingBracket text rest) (closingBracket : Char) :
    ∃ bindings, forLoop openingBracket closingBracket text = (do
      let collection ← loopPart fun rest => rest.head? == some ':'
      let _ ← char ':'
      whitespace
      let statements ← loopPart startsCondition
      let condition ← optionalText loopCondition
      closing closingBracket .forExpression
      return {
        opening := openingBracket
        closing := closingBracket
        bindings := bindings
        collection := Text.trim collection
        statements := Text.trim statements
        condition := condition } : Rule ForLoop) rest.trimStart := by
  obtain ⟨behindOpening, behindFor, bindings, behindBindings, space, rfl, keyword, names, word,
    isSpace⟩ := opens
  refine ⟨bindings, ?_⟩
  rw [forLoop, bind_of_matched (char_cons openingBracket behindOpening), bind_of_matched keyword,
    bind_of_matched (whitespace_apply behindFor), bind_of_matched names,
    bind_of_matched (whitespace_apply behindBindings), word, bind_of_matched (word_append _ _),
    bind_of_matched (charWhere_cons isSpace rest), bind_of_matched (whitespace_apply rest)]

/-- A condition that never ends is none, and its word closes no bracket. -/
theorem closing_of_startsCondition {after : Text} (never : NeverCloses after)
    (starts : startsCondition after = true) {closingBracket : Char}
    (closes : isClosingBracket closingBracket = true) :
    optionalText loopCondition after = .matched [] after
      ∧ ∃ inside, closing closingBracket .forExpression after
        = .mismatch ("if".toList ++ inside) := by
  obtain ⟨-, c, tail, word, -⟩ := startsCondition_iff.mp starts
  -- Behind the word no bracket closes, so the condition has no end.
  have inside : NeverCloses (c :: tail) := by
    have behindSpace := never.trimStart
    rw [word] at behindSpace
    exact NeverCloses.behind_plain "if".toList behindSpace (by decide)
  have noCondition : loopCondition.Mismatches after := by
    refine Mismatches.behind (whitespace_apply after) ?_
    rw [word]
    exact Mismatches.behind (word_append "if".toList (c :: tail)) (inside.bind _)
  have notLetter : closingBracket ≠ 'i' := by
    rintro rfl
    cases closes
  refine ⟨optionalText_matched_iff.mpr (.inr ⟨rfl, noCondition, rfl⟩), c :: tail, ?_⟩
  rw [closing_of_cons word]
  exact bind_mismatch_iff.mpr (.inl (char_mismatch_iff.mpr ⟨by simpa using notLetter.symm, rfl⟩))

/-- A for expression that is never closed is the fault that it never ends, with the end of the text as
its place, exactly where its condition is not reached. Where it is, the rule mismatches at the word of
the condition. -/
theorem forLoop_neverCloses_iff {openingBracket closingBracket : Char}
    (brackets : (openingBracket, closingBracket) ∈ loopBrackets) {text rest : Text}
    (opens : OpensLoop openingBracket text rest) (never : NeverCloses rest) :
    (forLoop openingBracket closingBracket text = .committed [] (.unterminated .forExpression)
        ↔ ¬ ReachesCondition rest)
      ∧ (ReachesCondition rest → ∃ inside,
          forLoop openingBracket closingBracket text = .mismatch ("if".toList ++ inside)) := by
  have closes := (by decide : ∀ pair ∈ loopBrackets, isClosingBracket pair.2 = true) _ brackets
  obtain ⟨bindings, whole⟩ := forLoop_of_opensLoop opens closingBracket
  rw [whole, reachesCondition_iff]
  rcases loopPart_of_neverCloses never.trimStart fun rest => rest.head? == some ':' with
    ends | ⟨collection, behindCollection, part, colon, more⟩
  · -- The text ends in the collection.
    rw [bind_apply, ends]
    simp
  obtain ⟨behind, rfl⟩ : ∃ behind, behindCollection = ':' :: behind :=
    List.head?_eq_some_iff.mp (by simpa using colon)
  have noBracket := NeverCloses.behind_plain [':'] more (by decide)
  rw [bind_of_matched part, bind_of_matched (char_cons ':' behind),
    bind_of_matched (whitespace_apply behind)]
  rcases loopPart_of_neverCloses noBracket.trimStart startsCondition with
    ends | ⟨statements, after, yields, starts, endless⟩
  · -- The text ends in the statements.
    rw [bind_apply, ends]
    simp [part, ends]
  · obtain ⟨none, inside, gaveUp⟩ := closing_of_startsCondition endless starts closes
    rw [bind_of_matched yields, bind_of_matched none, bind_apply, gaveUp]
    simp [part, yields, starts]

/-- In the statements the text may end, in the condition the rule gives up. -/
theorem forLoop_neverCloses_both :
    (forList "[for x in y : z".toList = .committed [] (.unterminated .forExpression)
        ∧ ¬ ReachesCondition "y : z".toList)
      ∧ (ReachesCondition "y : z if a".toList ∧ ∃ inside,
          forObject "\x7bfor x in y : z if a".toList = .mismatch ("if".toList ++ inside)) := by
  have list : OpensLoop '[' "[for x in y : z".toList "y : z".toList :=
    ⟨"for x in y : z".toList, " x in y : z".toList, "x".toList, " in y : z".toList, ' ',
      by cbv, by cbv, by cbv, by cbv, by decide⟩
  have object : OpensLoop '{' "\x7bfor x in y : z if a".toList "y : z if a".toList :=
    ⟨"for x in y : z if a".toList, " x in y : z if a".toList, "x".toList,
      " in y : z if a".toList, ' ', by cbv, by cbv, by cbv, by cbv, by decide⟩
  have reaches : ReachesCondition "y : z if a".toList :=
    reachesCondition_iff.mpr ⟨"y ".toList, " z if a".toList, "z".toList, " if a".toList,
      by cbv, by cbv, by cbv⟩
  have statements : NeverCloses "y : z".toList := ⟨"y : z".toList, by cbv⟩
  have condition : NeverCloses "y : z if a".toList := ⟨"y : z if a".toList, by cbv⟩
  have committed : forList "[for x in y : z".toList
      = .committed [] (.unterminated .forExpression) := by cbv
  exact ⟨⟨committed, (forLoop_neverCloses_iff (by decide) list statements).1.mp committed⟩,
    reaches, (forLoop_neverCloses_iff (by decide) object condition).2 reaches⟩

/-- A for expression that nothing closes, and the rule for lists mismatches. -/
theorem not_forList_unterminated :
    OpensLoop '[' "[for x in y : z if a".toList "y : z if a".toList
      ∧ NeverCloses "y : z if a".toList
      ∧ forList "[for x in y : z if a".toList = .mismatch "if a".toList :=
  ⟨⟨"for x in y : z if a".toList, " x in y : z if a".toList, "x".toList,
      " in y : z if a".toList, ' ', by cbv, by cbv, by cbv, by cbv, by decide⟩,
    ⟨"y : z if a".toList, by cbv⟩, by cbv⟩

end HclSyntax.Grammar
