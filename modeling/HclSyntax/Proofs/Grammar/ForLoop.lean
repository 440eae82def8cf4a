import HclSyntax.Grammar.Expression
import HclSyntax.Proofs.Grammar.Bracket
import HclSyntax.Proofs.Grammar.Name
import HclSyntax.Proofs.Grammar.Number
import HclSyntax.Proofs.Text.Trim

/-!
# `HclSyntax.Proofs.Grammar.ForLoop`: for expressions are read back

The parts of a for expression are kept as trimmed text and printed with one space between them, so
what is read back is not what was first read. `forLoop_source` shows that the loop is the same: white
space at the ends of a part does not change where the part ends, because `Passes` does not see it
(`Passes.dropSpace`, `Passes.takeSpace`), and the test for the word `if` looks at the same characters
before the printed condition as before the one in the source (`startsCondition_again`).
-/

set_option autoImplicit false

namespace HclSyntax.Grammar

open Rule

/-! ### White space around balanced text -/

/-- A bracket is no white space. -/
theorem isWhitespace_bracket {c : Char} (h : isClosingBracket c = true ∨ isOpeningBracket c = true) :
    isWhitespace c = false := by
  simp only [isClosingBracket, isOpeningBracket, Bool.or_eq_true, beq_iff_eq] at h
  rcases h with ((rfl | rfl) | rfl) | (rfl | rfl) | rfl <;> decide

/-- White space at the start of a text does not matter for passing over it. -/
theorem Passes.dropSpace {stop : Text → Bool} {after : Text} {depth : Nat} {space text : Text}
    (h : Text.AllSpace space) (passes : Passes stop after depth (space ++ text)) :
    Passes stop after depth text := by
  induction space with
  | nil => exact passes
  | cons c space ih =>
    have isSpace : isWhitespace c = true := h c (by simp)
    refine ih (fun d hd => h d (by simp [hd])) ?_
    -- A quoted span and a bracket start with no white space, so the text was passed as plain.
    generalize same : c :: space ++ text = whole at passes
    cases passes with
    | nil => cases same
    | @quoted _ span tail quoted goesOn rest =>
      obtain ⟨inside, rfl⟩ := quoted.cons
      obtain ⟨rfl, -⟩ := List.cons.inj same
      cases isSpace
    | @closing _ d tail closes rest =>
      cases same
      simp [isWhitespace_bracket (.inl closes)] at isSpace
    | @opening _ d tail opens goesOn rest =>
      cases same
      simp [isWhitespace_bracket (.inr opens)] at isSpace
    | @plain _ d tail notQuote notClosing notOpening goesOn rest =>
      cases same
      exact rest

/-- A text that can be passed over from a depth and is white space has no open bracket. -/
theorem Passes.depth_eq_zero {stop : Text → Bool} {after : Text} {depth : Nat} {space : Text}
    (h : Text.AllSpace space) (passes : Passes stop after depth space) : depth = 0 := by
  have nothing := @Passes.dropSpace stop after depth space [] h (by simpa using passes)
  generalize same : ([] : Text) = whole at nothing
  cases nothing with
  | nil => rfl
  | @quoted _ span tail quoted goesOn rest =>
    obtain ⟨inside, rfl⟩ := quoted.cons
    cases same
  | closing | opening | plain => cases same

/-- White space at the end of a text may as well be what follows it. -/
theorem Passes.takeSpace {stop : Text → Bool} {after : Text} {depth : Nat} {text space : Text}
    (h : Text.AllSpace space) (passes : Passes stop after depth (text ++ space)) :
    Passes stop (space ++ after) depth text := by
  -- Where only the white space is left no bracket is open.
  have ends {depth : Nat} (passes : Passes stop after depth space) :
      Passes stop (space ++ after) depth [] := by
    obtain rfl := passes.depth_eq_zero h
    exact .nil
  generalize same : text ++ space = whole at passes
  induction passes generalizing text with
  | nil =>
    obtain ⟨rfl, rfl⟩ := List.append_eq_nil_iff.mp same
    exact .nil
  | @quoted depth span tail quoted goesOn rest ih =>
    -- The span may only reach into the white space by nothing, since it ends with a quote.
    rcases List.append_eq_append_iff.mp same with ⟨middle, rfl, rfl⟩ | ⟨middle, rfl, rfl⟩
    · cases middle using List.reverseRecOn with
      | nil =>
        have whole := Passes.quoted quoted (by simpa using goesOn) (ends rest)
        rwa [List.append_nil, List.append_nil] at whole
      | append_singleton middle c =>
        have last := quoted.getLast?
        rw [← List.append_assoc, List.getLast?_concat, Option.some.injEq] at last
        have isSpace := h c (by simp)
        rw [last] at isSpace
        cases isSpace
    · exact .quoted quoted (by simpa using goesOn) (ih rfl)
  | @closing depth d tail closes rest ih =>
    cases text with
    | nil =>
      rw [List.nil_append] at same
      exact ends (same ▸ .closing closes rest)
    | cons c text =>
      cases same
      exact .closing closes (ih rfl)
  | @opening depth d tail opens goesOn rest ih =>
    cases text with
    | nil =>
      rw [List.nil_append] at same
      exact ends (same ▸ .opening opens goesOn rest)
    | cons c text =>
      cases same
      exact .opening opens (by simpa using goesOn) (ih rfl)
  | @plain depth d tail notQuote notClosing notOpening goesOn rest ih =>
    cases text with
    | nil =>
      rw [List.nil_append] at same
      exact ends (same ▸ .plain notQuote notClosing notOpening goesOn rest)
    | cons c text =>
      cases same
      exact .plain notQuote notClosing notOpening (by simpa using goesOn) (ih rfl)

/-- One text after the other can be passed over when both can. -/
theorem Passes.append {stop : Text → Bool} {after : Text} {depth : Nat} {front back : Text}
    (hfront : Passes stop (back ++ after) depth front) (hback : Passes stop after 0 back) :
    Passes stop after depth (front ++ back) := by
  induction hfront with
  | nil => exact hback
  | @quoted depth span tail quoted goesOn rest ih =>
    rw [List.append_assoc]
    exact .quoted quoted (by simpa using goesOn) ih
  | @closing depth d tail closes rest ih => exact .closing closes ih
  | @opening depth d tail opens goesOn rest ih => exact .opening opens (by simpa using goesOn) ih
  | @plain depth d tail notQuote notClosing notOpening goesOn rest ih =>
    exact .plain notQuote notClosing notOpening (by simpa using goesOn) ih

/-! ### Conditions -/

/-- A condition starts with white space and the word `if`, behind which white space or a parenthesis
stands. -/
theorem startsCondition_iff {text : Text} :
    startsCondition text = true
      ↔ (∃ c tail, text = c :: tail ∧ isWhitespace c = true)
        ∧ ∃ d tail, text.trimStart = 'i' :: 'f' :: d :: tail ∧ (isWhitespace d = true ∨ d = '(') := by
  unfold startsCondition
  rw [Bool.and_eq_true]
  refine and_congr ?_ ?_
  · cases text <;> simp
  · cases h : "if".toList.isPrefixOf? text.trimStart with
    | none =>
      simp only [Bool.false_eq_true, false_iff]
      rintro ⟨d, tail, starts, -⟩
      simp [starts, List.isPrefixOf?] at h
    | some behind =>
      have starts := List.isPrefixOf?_eq_some_iff_append_eq.mp h
      rw [← starts]
      cases behind with
      | nil => simp
      | cons d tail => simp

/-- Behind a text that does not end with white space, a condition starts at the same places whatever
follows, as long as a closing bracket follows, or white space did before and does now. -/
theorem startsCondition_again {back old new : Text} (nonempty : back ≠ [])
    (ends : Text.Stops isWhitespace back.reverse)
    (follows : (∃ c tail, new = c :: tail ∧ isClosingBracket c = true)
      ∨ (∃ c tail, old = c :: tail ∧ isWhitespace c = true)
        ∧ ∃ c tail, new = c :: tail ∧ isWhitespace c = true)
    (none : startsCondition (back ++ old) = false) : startsCondition (back ++ new) = false := by
  rw [← Bool.not_eq_true] at none ⊢
  refine fun starts => none ?_
  rw [startsCondition_iff] at starts ⊢
  obtain ⟨⟨c, tail, first, isSpace⟩, d, rest, word, follow⟩ := starts
  obtain ⟨b, bs, rfl⟩ := List.exists_cons_of_ne_nil nonempty
  obtain ⟨rfl, -⟩ := List.cons.inj first
  refine ⟨⟨b, bs ++ old, rfl, isSpace⟩, ?_⟩
  have visible := Text.trimStart_ne_nil nonempty ends
  rw [Text.trimStart_append_of_ne_nil visible] at word ⊢
  -- The test sees at most three characters behind the white space: as many of them as the text
  -- still has are the same before and after.
  generalize Text.trimStart (b :: bs) = front at visible word ⊢
  rcases front with _ | ⟨x, _ | ⟨y, _ | ⟨z, more⟩⟩⟩
  · exact absurd rfl visible
  · -- Only the first letter of the word is there.
    simp only [List.cons_append, List.nil_append, List.cons.injEq] at word
    obtain ⟨-, rfl⟩ := word
    rcases follows with ⟨e, _, same, closes⟩ | ⟨-, e, _, same, isSpace⟩ <;> cases same
    · cases closes
    · cases isSpace
  · -- The word is there and nothing after it.
    simp only [List.cons_append, List.nil_append, List.cons.injEq] at word
    obtain ⟨rfl, rfl, rfl⟩ := word
    rcases follows with ⟨e, _, same, closes⟩ | ⟨⟨e, others, rfl, isSpace⟩, -⟩
    · cases same
      rcases follow with isSpace | rfl
      · simp [isWhitespace_bracket (.inl closes)] at isSpace
      · cases closes
    · exact ⟨e, others, rfl, .inl isSpace⟩
  -- All that the test looks at is in the text itself.
  · simp only [List.cons_append, List.cons.injEq] at word
    obtain ⟨rfl, rfl, rfl, -⟩ := word
    exact ⟨z, more ++ old, rfl, follow⟩

/-! ### Parts of a loop -/

/-- The word `for` is taken with the white space in front of it, and white space must follow. -/
theorem forKeyword_matched_iff {text rest : Text} {value : Unit} :
    forKeyword text = .matched value rest
      ↔ text.trimStart = "for".toList ++ rest ∧ ∃ c tail, rest = c :: tail ∧ isWhitespace c = true := by
  simp only [forKeyword, bind_matched_iff, whitespace_matched_iff, keyword_matched_iff,
    pure_matched_iff]
  constructor
  · rintro ⟨_, _, rfl, _, _, ⟨starts, -, c, tail, rfl, isSpace⟩, -, rfl⟩
    exact ⟨starts, c, tail, rfl, isSpace⟩
  · rintro ⟨starts, c, tail, rfl, isSpace⟩
    exact ⟨(), _, rfl, _, _, ⟨starts, rfl, c, tail, rfl, isSpace⟩, trivial, rfl⟩

/-- The closing bracket is taken with the white space in front of it. -/
theorem closing_matched_iff {bracket : Char} {construct : Construct} {text rest : Text}
    {value : Unit} :
    closing bracket construct text = .matched value rest ↔ text.trimStart = bracket :: rest := by
  simp only [closing, bind_matched_iff, whitespace_matched_iff, remaining_matched_iff]
  constructor
  · rintro ⟨_, _, rfl, _, _, ⟨rfl, rfl⟩, more⟩
    split at more
    · simp [unterminated] at more
    · simp only [bind_matched_iff, char_matched_iff, pure_matched_iff] at more
      obtain ⟨_, _, ⟨starts, -⟩, -, rfl⟩ := more
      exact starts
  · intro starts
    refine ⟨(), _, rfl, _, _, ⟨rfl, rfl⟩, ?_⟩
    rw [starts, if_neg (by simp), bind_of_matched (char_cons bracket rest)]
    rfl

/-- What closing a bracket does is decided by what stands behind the white space. -/
theorem closing_apply (bracket : Char) (construct : Construct) (text : Text) :
    closing bracket construct text
      = if text.trimStart.isEmpty then .committed text.trimStart (.unterminated construct)
        else (char bracket >>= fun _ => pure ()) text.trimStart := by
  rw [closing, bind_of_matched (whitespace_apply text),
    bind_of_matched (remaining_matched_iff.mpr ⟨rfl, rfl⟩)]
  split <;> rfl

/-- In front of the first character behind white space only that one is tried. -/
theorem closing_of_cons {bracket c : Char} {construct : Construct} {text rest : Text}
    (h : text.trimStart = c :: rest) :
    closing bracket construct text = (char bracket >>= fun _ => pure ()) (c :: rest) := by
  rw [closing_apply, h]
  rfl

/-- A bracket is not closed by another character. -/
theorem mismatches_closing {bracket c : Char} {text rest : Text} (start : text.trimStart = c :: rest)
    (apart : c ≠ bracket) (construct : Construct) : (closing bracket construct).Mismatches text := by
  rw [Mismatches, closing_of_cons start]
  exact Mismatches.bind (mismatches_char_iff.mpr (by simpa using apart)) _

/-- A part of a for expression passes over balanced brackets and strings up to the first stop. -/
theorem loopPart_matched_iff {stop : Text → Bool} {text inside after : Text} :
    loopPart stop text = .matched inside after
      ↔ text = inside ++ after ∧ Passes stop after 0 inside ∧ StopsAt stop after := by
  rw [← balancedSplit_iff, loopPart]
  split
  · next found => simp [found]
  · next found => simp [found]

/-- A condition goes up to the bracket that closes the for expression. -/
theorem loopCondition_matched_iff {text condition rest : Text} :
    loopCondition text = .matched condition rest
      ↔ ∃ inside, text.trimStart = "if".toList ++ inside ++ rest
          ∧ Passes (fun _ => false) rest 0 inside ∧ StopsAt (fun _ => false) rest
          ∧ condition = "if ".toList ++ Text.trim inside := by
  simp only [loopCondition, bind_matched_iff, whitespace_matched_iff, word_matched_iff,
    balancedToBracket_matched_iff, pure_matched_iff]
  constructor
  · rintro ⟨_, _, rfl, _, _, ⟨starts, -⟩, inside, _, ⟨rfl, passes, stops⟩, rfl, rfl⟩
    exact ⟨inside, by rw [starts, List.append_assoc], passes, stops, rfl⟩
  · rintro ⟨inside, starts, passes, stops, rfl⟩
    exact ⟨(), _, rfl, _, _, ⟨by rw [starts, List.append_assoc], rfl⟩, inside, rest,
      ⟨rfl, passes, stops⟩, rfl, rfl⟩

/-! ### Loops -/

/-- The names that a for expression binds, as they are printed. -/
inductive IsBindings : Text → Prop
  | one {name : Text} (h : IsIdentifier name) : IsBindings name
  | two {first second : Text} (hfirst : IsIdentifier first) (hsecond : IsIdentifier second) :
    IsBindings (first ++ ", ".toList ++ second)

/-- The end of a for expression from its statements on. -/
def loopEnd (loop : ForLoop) : Text :=
  (if loop.condition.isEmpty then [] else ' ' :: loop.condition) ++ [loop.closing]

/-- A for expression in print. -/
theorem source_append (loop : ForLoop) (rest : Text) :
    loop.source ++ rest
      = loop.opening :: ("for ".toList ++ loop.bindings ++ " in ".toList
          ++ (loop.collection ++ " : ".toList ++ (loop.statements ++ loopEnd loop ++ rest))) := by
  have header : loop.header = "for ".toList ++ loop.bindings ++ " in ".toList ++ loop.collection
      ++ " : ".toList ++ loop.statements
      ++ (if loop.condition.isEmpty then [] else ' ' :: loop.condition) := rfl
  rw [ForLoop.source, header, loopEnd]
  simp only [List.cons_append, List.append_assoc]

/-- A for expression as the rule for for expressions takes it: trimmed parts, each balanced and with
no place in it where the part would end. -/
structure IsForLoop (loop : ForLoop) : Prop where
  closes : isClosingBracket loop.closing = true
  bindings : IsBindings loop.bindings
  collection : Text.Trimmed loop.collection
  collection_passes : Passes (fun rest => rest.head? == some ':') [':'] 0 loop.collection
  statements : Text.Trimmed loop.statements
  statements_passes : Passes startsCondition (loopEnd loop) 0 loop.statements
  condition : loop.condition = [] ∨ loop.statements ≠ [] ∧ ∃ inside,
    loop.condition = "if ".toList ++ inside ∧ Text.Trimmed inside
      ∧ Passes (fun _ => false) [] 0 inside

/-- The second name that a for expression binds, with the comma before it. -/
def secondBinding : Rule Text := do
  whitespace
  let _ ← char ','
  whitespace
  identifier

/-- A for expression binds one name or two. -/
theorem loopBindings_matched_iff {text bindings rest : Text} :
    loopBindings text = .matched bindings rest
      ↔ ∃ first behind second, identifier text = .matched first behind
          ∧ optional secondBinding behind = .matched second rest
          ∧ bindings = match second with
            | some name => first ++ ", ".toList ++ name
            | none => first := by
  simp only [loopBindings, secondBinding, bind_matched_iff]
  constructor
  · rintro ⟨first, behind, found, second, tail, others, same⟩
    cases second <;> obtain ⟨rfl, rfl⟩ := pure_matched_iff.mp same
    · exact ⟨first, behind, none, found, others, rfl⟩
    · exact ⟨first, behind, some _, found, others, rfl⟩
  · rintro ⟨first, behind, second, found, others, rfl⟩
    exact ⟨first, behind, found, second, rest, others, by cases second <;> rfl⟩

/-- The second name stands behind a comma, with white space on either side. -/
theorem secondBinding_matched_iff {text name rest : Text} :
    secondBinding text = .matched name rest
      ↔ ∃ behind, text.trimStart = ',' :: behind
          ∧ identifier (Text.trimStart behind) = .matched name rest := by
  simp only [secondBinding, bind_matched_iff, whitespace_matched_iff, char_matched_iff]
  constructor
  · rintro ⟨_, _, rfl, _, behind, ⟨starts, -⟩, _, _, rfl, found⟩
    exact ⟨behind, starts, found⟩
  · rintro ⟨behind, starts, found⟩
    exact ⟨(), _, rfl, ',', behind, ⟨starts, rfl⟩, (), _, rfl, found⟩

/-- What the rule for bindings takes are bindings. -/
theorem isBindings_of_matched {text bindings rest : Text}
    (h : loopBindings text = .matched bindings rest) : IsBindings bindings := by
  obtain ⟨first, behind, second, found, others, rfl⟩ := loopBindings_matched_iff.mp h
  have hfirst := isIdentifier_of_matched found
  rcases optional_matched_iff.mp others with ⟨name, rfl, takes⟩ | ⟨rfl, -, -⟩
  · obtain ⟨_, -, hsecond⟩ := secondBinding_matched_iff.mp takes
    exact .two hfirst (isIdentifier_of_matched hsecond)
  · exact .one hfirst

/-- An identifier starts with no white space. -/
theorem IsIdentifier.stops {name : Text} (h : IsIdentifier name) (rest : Text) :
    Text.Stops isWhitespace (name ++ rest) := by
  cases h with
  | bare nonempty all =>
    obtain ⟨c, tail, rfl⟩ := List.exists_cons_of_ne_nil nonempty
    exact (Text.stops_cons ..).mpr (isWhitespace_of_isNameChar (all c (by simp)))
  | parenthesized nonempty all => exact (Text.stops_cons ..).mpr (by decide)

/-- Bindings start with no white space. -/
theorem IsBindings.stops {bindings : Text} (h : IsBindings bindings) (rest : Text) :
    Text.Stops isWhitespace (bindings ++ rest) := by
  cases h with
  | one name => exact name.stops rest
  | two hfirst _ =>
    rw [List.append_assoc, List.append_assoc]
    exact hfirst.stops _

/-- Bindings are read back before a space and no comma. -/
theorem loopBindings_append {bindings rest : Text} (h : IsBindings bindings)
    (noComma : rest.trimStart.head? ≠ some ',') :
    loopBindings (bindings ++ ' ' :: rest) = .matched bindings (' ' :: rest) := by
  have space : Text.Stops isNameChar (' ' :: rest) := (Text.stops_cons ..).mpr (by decide)
  rw [loopBindings_matched_iff]
  cases h with
  | one name =>
    refine ⟨bindings, ' ' :: rest, none, identifier_append name space,
      optional_of_mismatches ?_, rfl⟩
    refine Mismatches.behind (whitespace_apply _) (Mismatches.bind (mismatches_char_iff.mpr ?_) _)
    exact noComma
  | @two first second hfirst hsecond =>
    refine ⟨first, ", ".toList ++ second ++ ' ' :: rest, some second, ?_,
      optional_of_matched (secondBinding_matched_iff.mpr ⟨' ' :: second ++ ' ' :: rest, ?_, ?_⟩), rfl⟩
    · rw [List.append_assoc, List.append_assoc]
      exact identifier_append hfirst ((Text.stops_cons ..).mpr (by decide))
    · rfl
    · have skip : Text.trimStart (' ' :: second ++ ' ' :: rest) = second ++ ' ' :: rest :=
        Text.trimStart_of_stops (hsecond.stops _)
      rw [skip]
      exact identifier_append hsecond space

/-- A for expression, part by part. -/
theorem forLoop_matched_iff {openingBracket closingBracket : Char} {text rest : Text}
    {loop : ForLoop} :
    forLoop openingBracket closingBracket text = .matched loop rest
      ↔ ∃ behindOpening behindFor bindings behindBindings space behindIn collection behindCollection
          statements behindStatements condition behindCondition,
          text = openingBracket :: behindOpening
          ∧ forKeyword behindOpening = .matched () behindFor
          ∧ loopBindings behindFor.trimStart = .matched bindings behindBindings
          ∧ behindBindings.trimStart = "in".toList ++ space :: behindIn
          ∧ isWhitespace space = true
          ∧ loopPart (fun rest => rest.head? == some ':') (Text.trimStart behindIn)
              = .matched collection (':' :: behindCollection)
          ∧ loopPart startsCondition (Text.trimStart behindCollection)
              = .matched statements behindStatements
          ∧ optionalText loopCondition behindStatements = .matched condition behindCondition
          ∧ behindCondition.trimStart = closingBracket :: rest
          ∧ loop = ⟨openingBracket, closingBracket, bindings, Text.trim collection,
              Text.trim statements, condition⟩ := by
  simp only [forLoop, bind_matched_iff, char_matched_iff, whitespace_matched_iff,
    word_matched_iff, charWhere_matched_iff, closing_matched_iff, pure_matched_iff]
  -- What is left is to name the parts in the order of the text.
  constructor
  · rintro ⟨_, behindOpening, ⟨rfl, -⟩, _, behindFor, keyword, _, _, rfl, bindings, behindBindings,
      names, _, _, rfl, _, _, ⟨starts, -⟩, space, behindIn, ⟨rfl, isSpace⟩, _, _, rfl, collection,
      _, part, _, behindCollection, ⟨rfl, -⟩, _, _, rfl, statements, behindStatements, yields,
      condition, behindCondition, tests, _, _, ends, rfl, rfl⟩
    exact ⟨behindOpening, behindFor, bindings, behindBindings, space, behindIn, collection,
      behindCollection, statements, behindStatements, condition, behindCondition, rfl, keyword,
      names, starts, isSpace, part, yields, tests, ends, rfl⟩
  · rintro ⟨behindOpening, behindFor, bindings, behindBindings, space, behindIn, collection,
      behindCollection, statements, behindStatements, condition, behindCondition, rfl, keyword,
      names, starts, isSpace, part, yields, tests, ends, rfl⟩
    exact ⟨_, behindOpening, ⟨rfl, rfl⟩, _, behindFor, keyword, (), _, rfl, bindings,
      behindBindings, names, (), _, rfl, _, _, ⟨starts, rfl⟩, space, behindIn, ⟨rfl, isSpace⟩, (),
      _, rfl, collection, _, part, _, behindCollection, ⟨rfl, rfl⟩, (), _, rfl, statements,
      behindStatements, yields, condition, behindCondition, tests, (), _, ends, rfl, rfl⟩

/-- A text can be passed over when it can with white space around it, which may then follow it. -/
theorem Passes.trim {stop : Text → Bool} {after text : Text} (passes : Passes stop after 0 text) :
    ∃ space, Text.AllSpace space ∧ Passes stop (space ++ after) 0 (Text.trim text) := by
  obtain ⟨front, back, hfront, hback, split, -⟩ := Text.trim_split text
  rw [split, List.append_assoc] at passes
  exact ⟨back, hback, (passes.dropSpace hfront).takeSpace hback⟩

/-- A trimmed text has no white space at its ends. -/
theorem trimmed_trim (text : Text) : Text.Trimmed (Text.trim text) := by
  obtain ⟨_, _, -, -, -, trimmed⟩ := Text.trim_split text
  exact trimmed

/-- Where the statements of a for expression stop and its condition follows, white space does. -/
theorem space_of_condition {behind condition rest : Text}
    (stops : StopsAt startsCondition behind)
    (takes : loopCondition behind = .matched condition rest) :
    ∃ c tail, behind = c :: tail ∧ isWhitespace c = true := by
  obtain ⟨c, tail, rfl, stands⟩ := stops
  rw [← isClosingBracket_iff_mem] at stands
  rcases stands with starts | closes
  · exact (startsCondition_iff.mp starts).1
  · obtain ⟨inside, word, -⟩ := loopCondition_matched_iff.mp takes
    have noSpace : Text.Stops isWhitespace (c :: tail) :=
      (Text.stops_cons ..).mpr (isWhitespace_bracket (.inl closes))
    rw [Text.trimStart_of_stops noSpace] at word
    cases word
    cases closes

/-- The statements of a for expression end before its condition as they did. -/
theorem statements_again {statements behind condition rest : Text} {closingBracket : Char}
    (closes : isClosingBracket closingBracket = true)
    (passes : Passes startsCondition behind 0 statements) (stops : StopsAt startsCondition behind)
    (tests : optionalText loopCondition behind = .matched condition rest) :
    Passes startsCondition
      ((if condition.isEmpty then [] else ' ' :: condition) ++ [closingBracket]) 0
      (Text.trim statements) := by
  obtain ⟨space, allSpace, passes⟩ := passes.trim
  refine passes.mono fun back suffix nonempty => startsCondition_again nonempty ?_ ?_
  · obtain ⟨front, split⟩ := suffix
    have ends := (trimmed_trim statements).2
    rw [← split, List.reverse_append] at ends
    exact ends.of_append
  -- With a condition white space stood behind the statements and does in print; without one the
  -- closing bracket does.
  · rcases optionalText_matched_iff.mp tests with takes | ⟨rfl, -, -⟩
    · obtain ⟨inside, -, -, -, rfl⟩ := loopCondition_matched_iff.mp takes
      obtain ⟨c, tail, rfl, isSpace⟩ := space_of_condition stops takes
      refine .inr ⟨?_, ' ', _, rfl, by decide⟩
      cases space with
      | nil => exact ⟨c, tail, rfl, isSpace⟩
      | cons d space => exact ⟨d, _, rfl, allSpace d (by simp)⟩
    · exact .inl ⟨closingBracket, [], rfl, closes⟩

/-- What the rule for for expressions takes is one. -/
theorem isForLoop_of_matched {openingBracket closingBracket : Char} {text rest : Text}
    {loop : ForLoop} (closes : isClosingBracket closingBracket = true)
    (h : forLoop openingBracket closingBracket text = .matched loop rest) :
    IsForLoop loop ∧ loop.opening = openingBracket ∧ loop.closing = closingBracket := by
  obtain ⟨behindOpening, behindFor, bindings, behindBindings, space, behindIn, collection,
    behindCollection, statements, behindStatements, condition, behindCondition, -, -, names, -, -,
    part, yields, tests, -, rfl⟩ := forLoop_matched_iff.mp h
  obtain ⟨-, collects, -⟩ := loopPart_matched_iff.mp part
  obtain ⟨start, states, stops⟩ := loopPart_matched_iff.mp yields
  refine ⟨⟨closes, isBindings_of_matched names, trimmed_trim _, ?_, trimmed_trim _,
    statements_again closes states stops tests, ?_⟩, rfl, rfl⟩
  · obtain ⟨space, -, passes⟩ := collects.trim
    -- The stop test for a collection looks at one character, which the text itself has.
    refine passes.mono fun back _ nonempty goesOn => ?_
    obtain ⟨c, tail, rfl⟩ := List.exists_cons_of_ne_nil nonempty
    exact goesOn
  · rcases optionalText_matched_iff.mp tests with takes | ⟨rfl, -, -⟩
    · obtain ⟨inside, -, tested, -, rfl⟩ := loopCondition_matched_iff.mp takes
      obtain ⟨_, -, passes⟩ := tested.trim
      refine .inr ⟨fun empty => ?_, Text.trim inside, rfl, trimmed_trim _, passes_any passes []⟩
      -- White space was skipped before the statements, so there are some before a condition.
      obtain ⟨c, tail, rfl, isSpace⟩ := space_of_condition stops takes
      obtain ⟨front, back, hfront, hback, split, -⟩ := Text.trim_split statements
      have noSpace := Text.stops_trimStart behindCollection
      change Text.trim statements = [] at empty
      rw [start, split, empty, List.append_nil] at noSpace
      cases spaces : front ++ back with
      | nil =>
        rw [spaces] at noSpace
        simp [isSpace] at noSpace
      | cons d rest =>
        have isSpace := hfront.append hback d (by simp [spaces])
        rw [spaces] at noSpace
        simp [isSpace] at noSpace
    · exact .inl rfl

/-- The collection of a for expression is split off at the colon that is printed after it. -/
theorem collection_again {collection : Text} (trimmed : Text.Trimmed collection)
    (passes : Passes (fun rest => rest.head? == some ':') [':'] 0 collection) (rest : Text) :
    ∃ found, loopPart (fun rest => rest.head? == some ':')
        (Text.trimStart (collection ++ " : ".toList ++ rest)) = .matched found (':' :: ' ' :: rest)
      ∧ Text.trim found = collection := by
  have stops : StopsAt (fun rest => rest.head? == some ':') (':' :: ' ' :: rest) :=
    ⟨':', _, rfl, .inl rfl⟩
  cases collection with
  | nil => exact ⟨[], loopPart_matched_iff.mpr ⟨rfl, .nil, stops⟩, rfl⟩
  | cons c tail =>
    refine ⟨c :: tail ++ [' '], loopPart_matched_iff.mpr ⟨?_, ?_, stops⟩, ?_⟩
    · rw [List.append_assoc, List.cons_append, Text.trimStart_cons ((Text.stops_cons ..).mp trimmed.1)]
      simp
    · refine Passes.append (passes.mono fun back _ nonempty goesOn => ?_) ?_
      · obtain ⟨d, more, rfl⟩ := List.exists_cons_of_ne_nil nonempty
        exact goesOn
      -- The printed space before the colon is part of what is split off, and trimmed away after.
      · exact .plain (by decide) (by decide) (by decide) (fun _ => rfl) .nil
    · exact Text.trim_eq Text.allSpace_nil (by simp [Text.AllSpace]; decide) trimmed

/-- The condition of a for expression is read back before its closing bracket. -/
theorem condition_again {loop : ForLoop} (h : IsForLoop loop) (rest : Text) :
    optionalText loopCondition (loopEnd loop ++ rest)
      = .matched loop.condition (loop.closing :: rest) := by
  rw [optionalText_matched_iff]
  have noSpace : Text.trimStart (loop.closing :: rest) = loop.closing :: rest :=
    Text.trimStart_of_stops ((Text.stops_cons ..).mpr (isWhitespace_bracket (.inl h.closes)))
  have closes := h.closes
  rcases h.condition with empty | ⟨-, inside, same, trimmed, passes⟩
  · refine .inr ⟨empty, ?_, by simp [loopEnd, empty]⟩
    refine Mismatches.behind (whitespace_apply _) (Mismatches.bind (mismatches_word_iff.mpr ?_) _)
    simp only [loopEnd, empty, List.isEmpty_nil, if_true, List.nil_append, List.singleton_append,
      noSpace]
    -- A closing bracket does not start the word `if`.
    rintro ⟨tail, word⟩
    rw [← (List.cons.inj word).1] at closes
    cases closes
  · refine .inl (loopCondition_matched_iff.mpr ⟨' ' :: inside, ?_, ?_, ?_, ?_⟩)
    · simp only [loopEnd, same, String.reduceToList, List.cons_append, List.nil_append,
        List.isEmpty_cons, Bool.false_eq_true, if_false]
      rw [Text.trimStart_space, Text.trimStart_cons (by decide)]
      simp
    · exact .plain (by decide) (by decide) (by decide) (fun _ => rfl) (passes_any passes _)
    · exact stopsAt_cons_iff.mpr (.inr closes)
    · have space : Text.AllSpace [' '] := by
        simp [Text.AllSpace]
        decide
      have skip := Text.trim_eq space Text.allSpace_nil trimmed
      rw [List.append_nil, List.singleton_append] at skip
      rw [same, skip]

/-- What ends a for expression starts with white space or its closing bracket. -/
theorem loopEnd_cons (loop : ForLoop) :
    (loop.condition = [] ∧ loopEnd loop = [loop.closing])
      ∨ ∃ tail, loopEnd loop = ' ' :: tail := by
  unfold loopEnd
  cases h : loop.condition with
  | nil => exact .inl ⟨rfl, rfl⟩
  | cons c rest => exact .inr ⟨_, rfl⟩

/-- The statements of a for expression are split off where they end in print. -/
theorem statements_split {loop : ForLoop} (h : IsForLoop loop) (rest : Text) :
    loopPart startsCondition (Text.trimStart (' ' :: (loop.statements ++ loopEnd loop ++ rest)))
      = .matched loop.statements (loopEnd loop ++ rest) := by
  refine loopPart_matched_iff.mpr ⟨?_, ?_, ?_⟩
  · rw [Text.trimStart_space, List.append_assoc]
    refine Text.trimStart_of_stops ?_
    cases same : loop.statements with
    | cons c tail => exact (Text.stops_cons ..).mpr ((Text.stops_cons ..).mp (same ▸ h.statements.1))
    | nil =>
      have none : loop.condition = [] := h.condition.resolve_right fun more => more.1 same
      simpa [loopEnd, none] using isWhitespace_bracket (.inl h.closes)
  -- `IsForLoop` knows the statements in front of the end of the loop alone, not of what follows it.
  · refine h.statements_passes.mono fun back suffix nonempty => startsCondition_again nonempty ?_ ?_
    · obtain ⟨front, split⟩ := suffix
      have ends := h.statements.2
      rw [← split, List.reverse_append] at ends
      exact ends.of_append
    · rcases loopEnd_cons loop with ⟨-, same⟩ | ⟨tail, same⟩
      · exact .inl ⟨loop.closing, rest, by rw [same]; rfl, h.closes⟩
      · exact .inr ⟨⟨' ', tail, same, by decide⟩, ' ', tail ++ rest, by rw [same]; rfl, by decide⟩
  · rcases h.condition with none | ⟨-, inside, same, -⟩
    · exact ⟨loop.closing, rest, by simp [loopEnd, none], .inr (isClosingBracket_iff_mem.mp h.closes)⟩
    · refine ⟨' ', loop.condition ++ loop.closing :: rest, by simp [loopEnd, same], .inl ?_⟩
      refine startsCondition_iff.mpr ⟨⟨' ', loop.condition ++ loop.closing :: rest,
        by simp [loopEnd, same], by decide⟩, ' ', inside ++ loop.closing :: rest, ?_, .inl (by decide)⟩
      simp only [loopEnd, same, String.reduceToList, List.cons_append, List.nil_append,
        List.isEmpty_cons, Bool.false_eq_true, if_false, List.append_assoc]
      rw [Text.trimStart_space, Text.trimStart_cons (by decide)]

/-- A for expression is read back before any text. -/
theorem forLoop_source {loop : ForLoop} (h : IsForLoop loop) (rest : Text) :
    forLoop loop.opening loop.closing (loop.source ++ rest) = .matched loop rest := by
  obtain ⟨found, part, trimmed⟩ := collection_again h.collection h.collection_passes
    (loop.statements ++ loopEnd loop ++ rest)
  have noSpace : Text.Stops isWhitespace (loop.closing :: rest) :=
    (Text.stops_cons ..).mpr (isWhitespace_bracket (.inl h.closes))
  have yields : Text.trim loop.statements = loop.statements := Text.trim_of_trimmed h.statements
  -- The collection is only read back up to white space, so what it is printed in front of is kept
  -- apart as `tail`.
  generalize tail_eq : loop.collection ++ " : ".toList ++ (loop.statements ++ loopEnd loop ++ rest)
    = tail at part
  refine forLoop_matched_iff.mpr ⟨"for ".toList ++ loop.bindings ++ " in ".toList ++ tail,
    ' ' :: loop.bindings ++ ' ' :: ("in ".toList ++ tail), loop.bindings,
    ' ' :: ("in ".toList ++ tail), ' ', tail, found,
    ' ' :: (loop.statements ++ loopEnd loop ++ rest), loop.statements, loopEnd loop ++ rest,
    loop.condition, loop.closing :: rest, ?source, ?keyword, ?names, ?starts, ?space, part,
    statements_split h rest, condition_again h rest, Text.trimStart_of_stops noSpace, ?same⟩
  case source => rw [← tail_eq, source_append]
  case keyword =>
    refine forKeyword_matched_iff.mpr ⟨?_, ' ', _, rfl, by decide⟩
    simp only [String.reduceToList, List.cons_append, List.nil_append, List.append_assoc]
    rw [Text.trimStart_cons (by decide)]
  case names =>
    have noComma : (Text.trimStart ("in ".toList ++ tail)).head? ≠ some ',' := by
      simp only [String.reduceToList, List.cons_append, List.nil_append]
      rw [Text.trimStart_cons (by decide)]
      simp
    rw [List.cons_append, Text.trimStart_space, Text.trimStart_of_stops (h.bindings.stops _)]
    exact loopBindings_append h.bindings noComma
  case starts =>
    simp only [String.reduceToList, List.cons_append, List.nil_append]
    rw [Text.trimStart_space, Text.trimStart_cons (by decide)]
  case space => decide
  case same => rw [trimmed, yields]

end HclSyntax.Grammar
