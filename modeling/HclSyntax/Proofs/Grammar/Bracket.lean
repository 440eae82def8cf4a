import HclSyntax.Proofs.Grammar.Recursion
import HclSyntax.Proofs.Rule.Lookahead
import HclSyntax.Proofs.Text.CharacterClass
import HclSyntax.Proofs.Text.Quoting

/-!
# `HclSyntax.Proofs.Grammar.Bracket`: balanced text is read back

`Passes stop after depth text` says what `balancedSplit` needs of a text to go over all of it, from
a depth down to no open bracket, when `after` follows: its quoted strings end, its brackets match,
and the stop test holds nowhere outside them. Together with a place to stop after it (`StopsAt`)
this is exactly when the split is made there (`balancedSplit_iff`).

The relation is what survives printing. White space can be taken from both ends of a text that
passes (`Passes.trim`), and another text may follow when the stop test sees no difference
(`Passes.mono`).
-/

set_option autoImplicit false

namespace HclSyntax.Grammar

open Rule

/-- A quoted string with both quotes and nothing after it. -/
def IsQuotedSpan (span : Text) : Prop :=
  Text.quotedSpan span = some (span, [])

/-- What is taken for a quoted string is one. -/
theorem isQuotedSpan_of_quotedSpan {text span after : Text}
    (h : Text.quotedSpan text = some (span, after)) : IsQuotedSpan span := by
  unfold Text.quotedSpan at h
  split at h
  · cases h
  · split at h
    · next opens =>
      obtain ⟨⟨inside, behind⟩, closes, same⟩ := Option.map_eq_some_iff.mp h
      cases same
      have again := Text.close_span_append closes []
      rw [List.append_nil] at again
      simp [IsQuotedSpan, Text.quotedSpan, opens, again]
    · cases h

/-- A quoted string is found at the front of any text that starts with it. -/
theorem IsQuotedSpan.append {span : Text} (h : IsQuotedSpan span) (more : Text) :
    Text.quotedSpan (span ++ more) = some (span, more) := by
  unfold IsQuotedSpan Text.quotedSpan at h
  split at h
  · cases h
  · next c inside =>
    split at h
    · next opens =>
      obtain ⟨⟨front, behind⟩, closes, same⟩ := Option.map_eq_some_iff.mp h
      cases same
      simp [Text.quotedSpan, opens, Text.close_span_append closes more]
    · cases h

/-- A quoted string starts with a quote. -/
theorem IsQuotedSpan.cons {span : Text} (h : IsQuotedSpan span) : ∃ inside, span = '"' :: inside := by
  unfold IsQuotedSpan Text.quotedSpan at h
  split at h
  · cases h
  · next c inside =>
    split at h
    · next opens => exact ⟨inside, by rw [opens]⟩
    · cases h

/-- A quoted string ends with a quote. -/
theorem IsQuotedSpan.getLast? {span : Text} (h : IsQuotedSpan span) :
    span.getLast? = some '"' := by
  obtain ⟨inside, rfl⟩ := h.cons
  obtain ⟨⟨front, back⟩, closes, same⟩ := Option.map_eq_some_iff.mp h
  cases same
  have last := Text.getLast?_of_close closes rfl
  rw [← List.singleton_append, List.getLast?_append, last]
  rfl

/-- From this depth `balancedSplit` goes over all of the text, and closes every bracket, when
`after` follows. -/
inductive Passes (stop : Text → Bool) (after : Text) : Nat → Text → Prop
  | nil : Passes stop after 0 []
  | quoted {depth : Nat} {span tail : Text} (quoted : IsQuotedSpan span)
    (goesOn : depth = 0 → stop (span ++ tail ++ after) = false) (rest : Passes stop after depth tail) :
    Passes stop after depth (span ++ tail)
  | closing {depth : Nat} {c : Char} {tail : Text} (closes : isClosingBracket c = true)
    (rest : Passes stop after depth tail) : Passes stop after (depth + 1) (c :: tail)
  | opening {depth : Nat} {c : Char} {tail : Text} (opens : isOpeningBracket c = true)
    (goesOn : depth = 0 → stop (c :: tail ++ after) = false)
    (rest : Passes stop after (depth + 1) tail) : Passes stop after depth (c :: tail)
  | plain {depth : Nat} {c : Char} {tail : Text} (notQuote : c ≠ '"')
    (notClosing : isClosingBracket c = false) (notOpening : isOpeningBracket c = false)
    (goesOn : depth = 0 → stop (c :: tail ++ after) = false)
    (rest : Passes stop after depth tail) : Passes stop after depth (c :: tail)

/-- A place where `balancedSplit` stops outside brackets: the stop test holds or a bracket closes
that was not opened. -/
def StopsAt (stop : Text → Bool) (after : Text) : Prop :=
  ∃ c tail, after = c :: tail ∧ (stop after = true ∨ c ∈ [')', ']', '}'])

/-- Three characters open a bracket. -/
theorem isOpeningBracket_iff_mem {c : Char} : isOpeningBracket c = true ↔ c ∈ ['(', '[', '{'] := by
  simp [isOpeningBracket, or_assoc]

/-- Three characters close a bracket. -/
theorem isClosingBracket_iff_mem {c : Char} : isClosingBracket c = true ↔ c ∈ [')', ']', '}'] := by
  simp [isClosingBracket, or_assoc]

/-- Whether a text is a place to stop is decided at its first character. -/
theorem stopsAt_cons_iff {stop : Text → Bool} {c : Char} {tail : Text} :
    StopsAt stop (c :: tail) ↔ stop (c :: tail) = true ∨ isClosingBracket c = true := by
  rw [isClosingBracket_iff_mem]
  constructor
  · rintro ⟨d, rest, same, stands⟩
    obtain ⟨rfl, rfl⟩ := List.cons.inj same
    exact stands
  · exact fun stands => ⟨c, tail, rfl, stands⟩

/-- A text goes on where neither the stop test holds nor a bracket closes. -/
theorem not_stopsAt_cons_iff {stop : Text → Bool} {c : Char} {tail : Text} :
    ¬ StopsAt stop (c :: tail) ↔ stop (c :: tail) = false ∧ isClosingBracket c = false := by
  rw [stopsAt_cons_iff, not_or, Bool.not_eq_true, Bool.not_eq_true]

/-- A closing bracket is no quote. -/
theorem notQuote_of_isClosingBracket {c : Char} (h : isClosingBracket c = true) : c ≠ '"' := by
  rintro rfl
  cases h

/-- An opening bracket does not close one. -/
theorem isClosingBracket_of_isOpeningBracket {c : Char} (h : isOpeningBracket c = true) :
    isClosingBracket c = false := by
  simp only [isOpeningBracket, Bool.or_eq_true, beq_iff_eq] at h
  rcases h with (rfl | rfl) | rfl <;> decide

/-- A closing bracket does not open one. -/
theorem isOpeningBracket_of_isClosingBracket {c : Char} (h : isClosingBracket c = true) :
    isOpeningBracket c = false :=
  Bool.eq_false_iff.mpr fun opens => by simp [isClosingBracket_of_isOpeningBracket opens] at h

/-- Where the split goes on at a character, the stop test does not count. -/
theorem goesOn_iff {stop : Text → Bool} {depth : Nat} {text : Text} :
    ¬ (decide (depth = 0) && stop text) = true ↔ (depth = 0 → stop text = false) := by
  simp

/-- What can be passed over up to a place to stop is split off there. -/
theorem Passes.balancedSplit {stop : Text → Bool} {inside after : Text} {depth : Nat}
    (passes : Passes stop after depth inside) (stops : StopsAt stop after) :
    balancedSplit stop depth (inside ++ after) = some (inside, after) := by
  induction passes with
  | nil =>
    -- All is passed over, so the split ends here: at the stop test or at a closing bracket.
    obtain ⟨c, tail, rfl, stands⟩ := stops
    rw [← isClosingBracket_iff_mem] at stands
    rw [List.nil_append, Grammar.balancedSplit.eq_def]
    dsimp only
    by_cases holds : stop (c :: tail) = true
    · rw [if_pos (by simpa using holds)]
    · have closes : isClosingBracket c = true := stands.resolve_left holds
      rw [if_neg (by simpa using holds), if_neg (notQuote_of_isClosingBracket closes), if_pos closes]
  | @quoted depth span tail quoted goesOn rest ih =>
    obtain ⟨inside, rfl⟩ := quoted.cons
    -- A quoted string is the same string whatever follows it.
    have spans := quoted.append (tail ++ after)
    rw [List.append_assoc, List.cons_append] at goesOn
    rw [List.append_assoc, List.cons_append, Grammar.balancedSplit.eq_def]
    dsimp only
    rw [if_neg (goesOn_iff.mpr goesOn), if_pos rfl]
    split
    · next none =>
      rw [← List.cons_append, spans] at none
      cases none
    · next span' behind found =>
      rw [← List.cons_append, spans, Option.some.injEq, Prod.mk.injEq] at found
      obtain ⟨rfl, rfl⟩ := found
      rw [ih, Option.map_some]
  | @closing depth c tail closes rest ih =>
    rw [List.cons_append, Grammar.balancedSplit.eq_def]
    dsimp only
    rw [if_neg (by simp), if_neg (notQuote_of_isClosingBracket closes), if_pos closes, ih,
      Option.map_some]
  | @opening depth c tail opens goesOn rest ih =>
    have notQuote : c ≠ '"' := by rintro rfl; cases opens
    have notClosing := isClosingBracket_of_isOpeningBracket opens
    rw [List.cons_append] at goesOn
    rw [List.cons_append, Grammar.balancedSplit.eq_def]
    dsimp only
    rw [if_neg (goesOn_iff.mpr goesOn), if_neg notQuote, if_neg (by simp [notClosing]),
      if_pos opens, ih, Option.map_some]
  | @plain depth c tail notQuote notClosing notOpening goesOn rest ih =>
    rw [List.cons_append] at goesOn
    rw [List.cons_append, Grammar.balancedSplit.eq_def]
    dsimp only
    rw [if_neg (goesOn_iff.mpr goesOn), if_neg notQuote, if_neg (by simp [notClosing]),
      if_neg (by simp [notOpening]), ih, Option.map_some]

/-- What is split off can be passed over, up to a place to stop. -/
theorem passes_of_balancedSplit {stop : Text → Bool} {text inside after : Text} {depth : Nat}
    (h : Grammar.balancedSplit stop depth text = some (inside, after)) :
    text = inside ++ after ∧ Passes stop after depth inside ∧ StopsAt stop after := by
  refine ⟨(balancedSplit_append h).symm, ?_⟩
  fun_induction Grammar.balancedSplit stop depth text generalizing inside after with
  | case1 | case3 => cases h
  | case2 depth c rest stands =>
    cases h
    obtain ⟨outside, holds⟩ := Bool.and_eq_true_iff.mp stands
    obtain rfl := of_decide_eq_true outside
    exact ⟨.nil, c, rest, rfl, .inl holds⟩
  | case4 depth rest span behind goesOn quotes shorter ih =>
    obtain ⟨⟨front, back⟩, found, same⟩ := Option.map_eq_some_iff.mp h
    cases same
    obtain ⟨passes, stops⟩ := ih found
    -- `goesOn` is about the text that was split, and has to be about the parts it was split into.
    have whole := Text.quotedSpan_append quotes
    rw [← balancedSplit_append found, ← List.append_assoc] at whole
    rw [← whole] at goesOn
    exact ⟨.quoted (isQuotedSpan_of_quotedSpan quotes) (goesOn_iff.mp goesOn) passes, stops⟩
  | case5 c rest notQuote closes goesOn =>
    cases h
    exact ⟨.nil, stopsAt_cons_iff.mpr (.inr closes)⟩
  | case6 c rest notQuote closes outer goesOn ih =>
    obtain ⟨⟨front, back⟩, found, same⟩ := Option.map_eq_some_iff.mp h
    cases same
    obtain ⟨passes, stops⟩ := ih found
    exact ⟨.closing closes passes, stops⟩
  | case7 depth c rest goesOn notQuote notClosing inner =>
    rename_i ih
    obtain ⟨⟨front, back⟩, found, same⟩ := Option.map_eq_some_iff.mp h
    cases same
    obtain ⟨passes, stops⟩ := ih found
    rw [← balancedSplit_append found, ← List.cons_append] at goesOn
    refine ⟨?_, stops⟩
    -- One equation of the split covers opening brackets and plain characters.
    by_cases opens : isOpeningBracket c = true
    · have deeper : inner = depth + 1 := dif_pos opens
      exact .opening opens (goesOn_iff.mp goesOn) (deeper ▸ passes)
    · have same : inner = depth := dif_neg opens
      exact .plain notQuote (by simpa using notClosing) (by simpa using opens)
        (goesOn_iff.mp goesOn) (same ▸ passes)

/-- A text is split exactly where it can be passed over up to a place to stop. -/
theorem balancedSplit_iff {stop : Text → Bool} {text inside after : Text} {depth : Nat} :
    balancedSplit stop depth text = some (inside, after)
      ↔ text = inside ++ after ∧ Passes stop after depth inside ∧ StopsAt stop after :=
  ⟨passes_of_balancedSplit, fun ⟨same, passes, stops⟩ => same ▸ passes.balancedSplit stops⟩

/-- A text is passed over as before when another one follows in which the stop test does not hold
earlier. -/
theorem Passes.mono {stop : Text → Bool} {inside after other : Text} {depth : Nat}
    (passes : Passes stop after depth inside)
    (same : ∀ back, back <:+ inside → back ≠ [] → stop (back ++ after) = false →
      stop (back ++ other) = false) : Passes stop other depth inside := by
  -- Wherever the scan went on, what was left of the text is an end of it.
  induction passes with
  | nil => exact .nil
  | @quoted depth span tail quoted goesOn rest ih =>
    refine .quoted quoted (fun outside => same _ (List.suffix_refl _) ?_ (goesOn outside)) ?_
    · obtain ⟨inside, rfl⟩ := quoted.cons
      simp
    · exact ih fun back suffix => same back (suffix.trans (List.suffix_append ..))
  | @closing depth c tail closes rest ih =>
    exact .closing closes (ih fun back suffix => same back (suffix.trans (List.suffix_cons ..)))
  | @opening depth c tail opens goesOn rest ih =>
    exact .opening opens (fun outside => same _ (List.suffix_refl _) (by simp) (goesOn outside))
      (ih fun back suffix => same back (suffix.trans (List.suffix_cons ..)))
  | @plain depth c tail notQuote notClosing notOpening goesOn rest ih =>
    exact .plain notQuote notClosing notOpening
      (fun outside => same _ (List.suffix_refl _) (by simp) (goesOn outside))
      (ih fun back suffix => same back (suffix.trans (List.suffix_cons ..)))

/-! ### Indices -/

/-- The stop test of `balancedToBracket` never holds, so what follows does not matter. -/
theorem passes_any {inside after : Text} {depth : Nat}
    (passes : Passes (fun _ => false) after depth inside) (other : Text) :
    Passes (fun _ => false) other depth inside :=
  passes.mono fun _ _ _ _ => rfl

/-- The rule takes what the scan splits off. -/
theorem balanced_matched_iff {stop : Text → Bool} {text inside after : Text} :
    balanced stop text = .matched inside after
      ↔ balancedSplit stop 0 text = some (inside, after) := by
  rw [balanced]
  split
  · next found => simp [found]
  · next found => simp [found]

/-- Without a stop test the scan passes over everything up to a bracket that was not opened. -/
theorem balancedToBracket_matched_iff {text inside after : Text} :
    balancedToBracket text = .matched inside after
      ↔ text = inside ++ after ∧ Passes (fun _ => false) after 0 inside
          ∧ StopsAt (fun _ => false) after := by
  rw [balancedToBracket, balanced_matched_iff, balancedSplit_iff]

/-- An index: balanced text that is not blank in square brackets. -/
theorem listIndex_matched_iff {text index rest : Text} :
    listIndex text = .matched index rest
      ↔ ∃ content, text = index ++ rest ∧ index = '[' :: content ++ [']']
          ∧ Text.isBlank content = false ∧ Passes (fun _ => false) (']' :: rest) 0 content := by
  simp only [listIndex, bind_matched_iff, suchThat_matched_iff, char_matched_iff,
    balancedToBracket_matched_iff, pure_matched_iff]
  constructor
  · rintro ⟨content, _, ⟨⟨_, _, ⟨rfl, rfl⟩, rfl, passes, -⟩, notBlank⟩, _, _, ⟨rfl, rfl⟩, rfl, rfl⟩
    exact ⟨content, by simp, rfl, by simpa using notBlank, passes⟩
  · rintro ⟨content, rfl, rfl, notBlank, passes⟩
    refine ⟨content, ']' :: rest, ⟨⟨'[', content ++ ']' :: rest, ⟨by simp, rfl⟩, ?_⟩, by simp [notBlank]⟩,
      ']', rest, ⟨rfl, rfl⟩, rfl, rfl⟩
    exact ⟨rfl, passes, ']', rest, rfl, .inr (by decide)⟩

/-- What the rule for indices takes it takes again before any text. -/
theorem listIndex_looksAhead : listIndex.LooksAhead fun _ => false := by
  intro text piece rest h
  obtain ⟨content, rfl, rfl, notBlank, passes⟩ := listIndex_matched_iff.mp h
  exact ⟨rfl, by simp, fun other _ =>
    listIndex_matched_iff.mpr ⟨content, rfl, rfl, notBlank, passes_any passes _⟩⟩

end HclSyntax.Grammar
