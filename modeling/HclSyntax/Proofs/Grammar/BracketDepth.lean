import HclSyntax.Proofs.Grammar.Bracket

/-!
# `HclSyntax.Proofs.Grammar.BracketDepth`: where a scan of brackets stops

A text with brackets is read as units: a quoted string is one unit, and any other character is one.
The depth of a place is the number of opening brackets less the number of closing brackets before it,
whatever their kinds, and the brackets in strings do not count. `IsFirstStop` says in these terms
where balanced text should end: at the first place of depth zero where the stop test holds or a
bracket closes.

The scan is compared with this through `Passes`, which counts the brackets that are open and so never
has to go below zero:

* `Passes.exists_units`: what a scan passes over are units, and none of them starts at a place to
  stop;
* `exists_passes`: if there is a place to stop, then a scan gets to one;
* `balanced_firstStop`: the split is made at the first such place, and fails if there is none.
-/

set_option autoImplicit false

namespace HclSyntax.Grammar

open Rule

/-! ### Units and depth -/

/-- A unit of a text with brackets. -/
inductive BracketUnit where
  /-- A quoted string, with both quotes. -/
  | quoted (span : Text) (closed : IsQuotedSpan span)
  | char (c : Char) (notQuote : c ≠ '"')

namespace BracketUnit

/-- The text of a unit. -/
def text : BracketUnit → Text
  | quoted span _ => span
  | char c _ => [c]

/-- By how much a unit changes the depth. Brackets of all three kinds count alike, and those in a
quoted string do not count. -/
def weight : BracketUnit → Int
  | quoted _ _ => 0
  | char c _ => if c ∈ ['(', '[', '{'] then 1 else if c ∈ [')', ']', '}'] then -1 else 0

/-- The text of some units. -/
def spell (units : List BracketUnit) : Text :=
  units.flatMap text

/-- The depth behind some units: the opening brackets less the closing ones. -/
def depth : List BracketUnit → Int
  | [] => 0
  | unit :: units => unit.weight + depth units

/-- The text of the first unit comes first. -/
@[simp]
theorem spell_cons (unit : BracketUnit) (units : List BracketUnit) :
    spell (unit :: units) = unit.text ++ spell units :=
  List.flatMap_cons

/-- The text of units in a row is that of the first and then that of the others. -/
@[simp]
theorem spell_append (units others : List BracketUnit) :
    spell (units ++ others) = spell units ++ spell others :=
  List.flatMap_append

/-- At the start no bracket is open. -/
@[simp]
theorem depth_nil : depth [] = 0 := rfl

/-- Each unit adds its weight to the depth. -/
@[simp]
theorem depth_cons (unit : BracketUnit) (units : List BracketUnit) :
    depth (unit :: units) = unit.weight + depth units := rfl

section Weight
variable {c : Char} {notQuote : c ≠ '"'}

/-- The scanner counts the same characters. -/
theorem weight_char (c : Char) (notQuote : c ≠ '"') :
    (char c notQuote).weight
      = if isOpeningBracket c then 1 else if isClosingBracket c then -1 else 0 := by
  simp only [weight, isOpeningBracket_iff_mem, isClosingBracket_iff_mem]

/-- What the scanner takes for an opening bracket makes the depth one more. -/
theorem weight_of_opens (opens : isOpeningBracket c = true) : (char c notQuote).weight = 1 := by
  rw [weight_char, if_pos opens]

/-- What the scanner takes for a closing bracket makes the depth one less. -/
theorem weight_of_closes (closes : isClosingBracket c = true) : (char c notQuote).weight = -1 := by
  rw [weight_char, if_neg (by simp [isOpeningBracket_of_isClosingBracket closes]), if_pos closes]

/-- No other character changes the depth. -/
theorem weight_of_plain (notOpening : isOpeningBracket c = false)
    (notClosing : isClosingBracket c = false) : (char c notQuote).weight = 0 := by
  rw [weight_char, if_neg (by simp [notOpening]), if_neg (by simp [notClosing])]

end Weight

/-- A unit can be told from the text that starts with it. -/
theorem eq_of_text_append {unit other : BracketUnit} {rest more : Text}
    (h : unit.text ++ rest = other.text ++ more) : unit = other ∧ rest = more := by
  have apart {span : Text} (closed : IsQuotedSpan span) {c : Char} (notQuote : c ≠ '"')
      {rest more : Text} : span ++ rest ≠ [c] ++ more := by
    obtain ⟨inside, rfl⟩ := closed.cons
    intro same
    exact notQuote (List.cons.inj same).1.symm
  cases unit with
  | quoted span closed =>
    cases other with
    | quoted span' closed' =>
      -- The string that a text starts with is found whatever follows it.
      have found := closed.append rest
      rw [show span ++ rest = span' ++ more from h, closed'.append, Option.some.injEq,
        Prod.mk.injEq] at found
      obtain ⟨rfl, rfl⟩ := found
      exact ⟨rfl, rfl⟩
    | char c notQuote => exact absurd h (apart closed notQuote)
  | char c notQuote =>
    cases other with
    | quoted span closed => exact absurd h.symm (apart closed notQuote)
    | char d notQuote' =>
      obtain ⟨rfl, rfl⟩ := List.cons.inj h
      exact ⟨rfl, rfl⟩

/-- A text is read as units in one way: of two readings one is a beginning of the other. -/
theorem prefix_or_prefix {units others : List BracketUnit} {rest more : Text}
    (h : spell units ++ rest = spell others ++ more) : units <+: others ∨ others <+: units := by
  induction units generalizing others with
  | nil => exact .inl List.nil_prefix
  | cons unit units ih =>
    cases others with
    | nil => exact .inr List.nil_prefix
    | cons other others =>
      rw [spell_cons, spell_cons, List.append_assoc, List.append_assoc] at h
      obtain ⟨rfl, more⟩ := eq_of_text_append h
      simpa only [List.prefix_cons_inj] using ih more

end BracketUnit

open BracketUnit

/-- Behind these units of the text is a place of depth zero where the stop test holds or a bracket
closes. -/
structure IsStop (stop : Text → Bool) (text : Text) (units : List BracketUnit) (rest : Text) :
    Prop where
  whole : text = spell units ++ rest
  outside : depth units = 0
  stops : StopsAt stop rest

/-- The first place of a text to stop at. Before it no bracket closes that was not opened. -/
structure IsFirstStop (stop : Text → Bool) (text : Text) (units : List BracketUnit) (rest : Text) :
    Prop extends IsStop stop text units rest where
  first : ∀ others more, IsStop stop text others more → units <+: others
  nonneg : ∀ front, front <+: units → 0 ≤ depth front

/-! ### From the scan to units -/

section Scan
variable {stop : Text → Bool} {after : Text}

/-- Reading the units from this depth ends at depth zero. Up to there the depth is never negative,
and no unit starts at a place to stop. -/
structure Clears (stop : Text → Bool) (after : Text) (start : Int) (units : List BracketUnit) :
    Prop where
  outside : start + depth units = 0
  before : ∀ front unit back, units = front ++ unit :: back → 0 ≤ start + depth front
    ∧ (start + depth front = 0 → ¬ StopsAt stop (spell (unit :: back) ++ after))

/-- No units clear anything. -/
theorem Clears.nil : Clears stop after 0 [] :=
  ⟨rfl, fun front unit back split => by simp at split⟩

/-- A unit in front of others, which start at the depth that it leaves. -/
theorem Clears.cons {start : Int} {unit : BracketUnit} {units : List BracketUnit}
    (nonneg : 0 ≤ start)
    (goesOn : start = 0 → ¬ StopsAt stop (spell (unit :: units) ++ after))
    (rest : Clears stop after (start + unit.weight) units) :
    Clears stop after start (unit :: units) where
  outside := by
    have := rest.outside
    rw [depth_cons]
    omega
  before front other back split := by
    -- In front of the first unit nothing is open yet, and behind it the others clear the way.
    cases front with
    | nil =>
      obtain ⟨rfl, rfl⟩ := List.cons.inj split
      rw [depth_nil, Int.add_zero]
      exact ⟨nonneg, goesOn⟩
    | cons first front =>
      obtain ⟨rfl, tail⟩ := List.cons.inj split
      rw [depth_cons, ← Int.add_assoc]
      exact rest.before front other back tail

/-- What a scan passes over are units that it reads without a place to stop. -/
theorem Passes.exists_units {opened : Nat} {inside : Text}
    (passes : Passes stop after opened inside) :
    ∃ units, spell units = inside ∧ Clears stop after opened units := by
  -- Outside brackets the scan goes on only where it does not stop.
  have goes {opened : Nat} {c : Char} {tail : Text} (notClosing : isClosingBracket c = false)
      (goesOn : opened = 0 → stop (c :: tail) = false) (outside : (opened : Int) = 0) :
      ¬ StopsAt stop (c :: tail) := by
    rw [stopsAt_cons_iff, goesOn (Int.natCast_eq_zero.mp outside), notClosing]
    simp
  induction passes with
  | nil => exact ⟨[], rfl, .nil⟩
  | @quoted opened span tail closed goesOn rest ih =>
    obtain ⟨units, rfl, clears⟩ := ih
    refine ⟨.quoted span closed :: units, rfl, .cons (Int.natCast_nonneg _) ?_ (by simpa [weight])⟩
    obtain ⟨string, rfl⟩ := closed.cons
    exact goes (by decide) goesOn
  | @closing opened c tail closes rest ih =>
    obtain ⟨units, rfl, clears⟩ := ih
    refine ⟨.char c (notQuote_of_isClosingBracket closes) :: units, rfl,
      .cons (Int.natCast_nonneg _) (by omega) ?_⟩
    rw [weight_of_closes closes, Int.natCast_succ, Int.add_assoc]
    exact clears
  | @opening opened c tail opens goesOn rest ih =>
    obtain ⟨units, rfl, clears⟩ := ih
    have notQuote : c ≠ '"' := by rintro rfl; cases opens
    refine ⟨.char c notQuote :: units, rfl, .cons (Int.natCast_nonneg _)
      (goes (isClosingBracket_of_isOpeningBracket opens) goesOn) ?_⟩
    rw [weight_of_opens opens]
    exact clears
  | @plain opened c tail notQuote notClosing notOpening goesOn rest ih =>
    obtain ⟨units, rfl, clears⟩ := ih
    refine ⟨.char c notQuote :: units, rfl, .cons (Int.natCast_nonneg _)
      (goes notClosing goesOn) ?_⟩
    rw [weight_of_plain notOpening notClosing, Int.add_zero]
    exact clears

/-! ### From units to the scan -/

/-- A unit that is not at a place to stop is passed over, to the depth behind it. -/
theorem Passes.cons {opened inner : Nat} {unit : BracketUnit} {inside : Text}
    (behind : inner = opened + unit.weight)
    (goesOn : opened = 0 → ¬ StopsAt stop (unit.text ++ inside ++ after))
    (rest : Passes stop after inner inside) : Passes stop after opened (unit.text ++ inside) := by
  cases unit with
  | quoted span closed =>
    rw [weight, Int.add_zero, Int.natCast_inj] at behind
    subst behind
    refine .quoted closed (fun outside => ?_) rest
    obtain ⟨string, rfl⟩ := closed.cons
    exact (not_stopsAt_cons_iff.mp (goesOn outside)).1
  | char c notQuote =>
    have free (outside : opened = 0) := not_stopsAt_cons_iff.mp (goesOn outside)
    -- The weight of a character tells in which way the scan takes it.
    by_cases opens : isOpeningBracket c = true
    · rw [weight_of_opens opens] at behind
      obtain rfl : inner = opened + 1 := by omega
      exact .opening opens (fun outside => (free outside).1) rest
    by_cases closes : isClosingBracket c = true
    · rw [weight_of_closes closes] at behind
      obtain rfl : opened = inner + 1 := by omega
      exact .closing closes rest
    · rw [Bool.not_eq_true] at opens closes
      rw [weight_of_plain opens closes] at behind
      obtain rfl : inner = opened := by omega
      exact .plain notQuote closes opens (fun outside => (free outside).1) rest

/-- Only a bracket that closes makes the depth less, and then the text there is a place to stop. -/
theorem stopsAt_of_weight_neg {unit : BracketUnit} (h : unit.weight < 0) (more : Text) :
    StopsAt stop (unit.text ++ more) := by
  cases unit with
  | quoted span closed => simp [weight] at h
  | char c notQuote =>
    rw [weight] at h
    split at h
    · omega
    · split at h
      · next closes => exact ⟨c, more, rfl, .inr closes⟩
      · omega

/-- A unit closes one bracket at most. -/
theorem neg_one_le_weight (unit : BracketUnit) : -1 ≤ unit.weight := by
  unfold weight
  repeat' split
  all_goals omega

/-- If the text has a place to stop, then a scan gets to one. -/
theorem exists_passes {units : List BracketUnit} {rest : Text} {opened : Nat}
    (outside : opened + depth units = 0) (stops : StopsAt stop rest) :
    ∃ inside after, spell units ++ rest = inside ++ after ∧ Passes stop after opened inside
      ∧ StopsAt stop after := by
  induction units generalizing opened with
  | nil =>
    obtain rfl : opened = 0 := by simpa using outside
    exact ⟨[], rest, rfl, .nil, stops⟩
  | cons unit units ih =>
    rw [spell_cons, List.append_assoc]
    by_cases here : opened = 0 ∧ StopsAt stop (unit.text ++ (spell units ++ rest))
    · obtain ⟨rfl, stands⟩ := here
      exact ⟨[], _, rfl, .nil, stands⟩
    · -- A bracket can only close here if one is open, so the depth behind the unit is a number.
      have low := neg_one_le_weight unit
      have closes (h : unit.weight < 0) : opened ≠ 0 := fun outside =>
        here ⟨outside, stopsAt_of_weight_neg h _⟩
      obtain ⟨inner, behind⟩ := Int.eq_ofNat_of_zero_le (a := opened + unit.weight) (by omega)
      rw [depth_cons] at outside
      obtain ⟨inside, after, split, passes, stands⟩ := @ih inner (by omega)
      rw [split] at here ⊢
      refine ⟨unit.text ++ inside, after, (List.append_assoc ..).symm,
        .cons behind.symm ?_ passes, stands⟩
      rw [List.append_assoc]
      exact fun outside stands => here ⟨outside, stands⟩

/-! ### The first place to stop -/

/-- Two readings that come to a place to stop with nothing to stop at before it are one. -/
theorem Clears.prefix_of_isStop {text rest more : Text} {units others : List BracketUnit}
    (clears : Clears stop rest 0 units) (whole : text = spell units ++ rest)
    (other : IsStop stop text others more) : units <+: others := by
  rcases prefix_or_prefix (whole.symm.trans other.whole) with shorter | longer
  · exact shorter
  · obtain ⟨back, rfl⟩ := longer
    cases back with
    | nil => simp
    | cons unit back =>
      -- The other place would be one to stop at before the end of the units.
      have goesOn := (clears.before others unit back rfl).2 (by simpa using other.outside)
      have same := whole.symm.trans other.whole
      rw [spell_append, List.append_assoc, List.append_cancel_left_eq] at same
      exact absurd other.stops (same ▸ goesOn)

/-- Where units clear the way to a stop, it is the first. -/
theorem isFirstStop_of_clears {text rest : Text} {units : List BracketUnit}
    (clears : Clears stop rest 0 units) (whole : text = spell units ++ rest)
    (stops : StopsAt stop rest) : IsFirstStop stop text units rest where
  whole := whole
  outside := by simpa using clears.outside
  stops := stops
  first others more other := clears.prefix_of_isStop whole other
  nonneg front shorter := by
    obtain ⟨back, rfl⟩ := shorter
    cases back with
    | nil =>
      have outside := clears.outside
      rw [List.append_nil] at outside
      omega
    | cons unit back => simpa using (clears.before front unit back rfl).1

/-- A text has at most one first place to stop. -/
theorem IsFirstStop.unique {text rest more : Text} {units others : List BracketUnit}
    (first : IsFirstStop stop text units rest) (other : IsFirstStop stop text others more) :
    units = others ∧ rest = more := by
  obtain rfl : units = others :=
    (first.first others more other.toIsStop).eq_of_length_le
      (other.first units rest first.toIsStop).length_le
  exact ⟨rfl, List.append_cancel_left (first.whole.symm.trans other.whole)⟩

/-- What is split off ends at the first place to stop. -/
theorem isFirstStop_of_balancedSplit {text inside rest : Text}
    (h : balancedSplit stop 0 text = some (inside, rest)) :
    ∃ units, IsFirstStop stop text units rest ∧ spell units = inside := by
  obtain ⟨whole, passes, stops⟩ := passes_of_balancedSplit h
  obtain ⟨units, rfl, clears⟩ := passes.exists_units
  exact ⟨units, isFirstStop_of_clears clears whole stops, rfl⟩

/-- A text with a place to stop is split. -/
theorem IsStop.exists_balancedSplit {text rest : Text} {units : List BracketUnit}
    (place : IsStop stop text units rest) :
    ∃ inside after, balancedSplit stop 0 text = some (inside, after) := by
  have outside : ((0 : Nat) : Int) + depth units = 0 := by simpa using place.outside
  obtain ⟨inside, after, split, passes, stops⟩ := exists_passes outside place.stops
  exact ⟨inside, after, balancedSplit_iff.mpr ⟨place.whole.trans split, passes, stops⟩⟩

/-- A text is split exactly at its first place to stop. -/
theorem balancedSplit_iff_isFirstStop {text inside rest : Text} :
    balancedSplit stop 0 text = some (inside, rest)
      ↔ ∃ units, IsFirstStop stop text units rest ∧ spell units = inside := by
  refine ⟨isFirstStop_of_balancedSplit, ?_⟩
  rintro ⟨units, first, rfl⟩
  obtain ⟨inside, after, split⟩ := first.toIsStop.exists_balancedSplit
  obtain ⟨others, other, rfl⟩ := isFirstStop_of_balancedSplit split
  obtain ⟨rfl, rfl⟩ := first.unique other
  exact split

end Scan

/-- Balanced text either is split or the rule fails with nothing consumed. -/
theorem balanced_mismatch_iff {stop : Text → Bool} {text : Text} :
    balanced stop text = .mismatch text
      ↔ ¬ ∃ inside rest, balanced stop text = .matched inside rest := by
  rw [balanced]
  split
  · simp
  · simp

/-- Balanced text ends at the first place of depth zero where the stop test holds or a bracket
closes, there is some if the text has any such place, and otherwise the rule fails with nothing
consumed. An index is text in square brackets that is balanced up to the last of them and not blank. -/
theorem balanced_firstStop (stop : Text → Bool) (text : Text) :
    (∀ inside rest, balanced stop text = .matched inside rest
      ↔ ∃ units, IsFirstStop stop text units rest ∧ spell units = inside)
    ∧ ((∃ inside rest, balanced stop text = .matched inside rest)
      ↔ ∃ units rest, IsStop stop text units rest)
    ∧ (balanced stop text = .mismatch text ↔ ¬ ∃ units rest, IsStop stop text units rest)
    ∧ ∀ index rest, listIndex text = .matched index rest
      ↔ ∃ content, text = '[' :: content ++ ']' :: rest ∧ index = '[' :: content ++ [']']
        ∧ Text.isBlank content = false
        ∧ balancedToBracket (content ++ ']' :: rest) = .matched content (']' :: rest) := by
  -- The scan finds the first stop, so it finds one where there is any.
  have splits inside rest : balanced stop text = .matched inside rest
      ↔ ∃ units, IsFirstStop stop text units rest ∧ spell units = inside := by
    rw [balanced_matched_iff, balancedSplit_iff_isFirstStop]
  have succeeds : (∃ inside rest, balanced stop text = .matched inside rest)
      ↔ ∃ units rest, IsStop stop text units rest := by
    constructor
    · rintro ⟨inside, rest, matched⟩
      obtain ⟨units, first, -⟩ := (splits inside rest).mp matched
      exact ⟨units, rest, first.toIsStop⟩
    · rintro ⟨units, rest, place⟩
      obtain ⟨inside, after, split⟩ := place.exists_balancedSplit
      exact ⟨inside, after, balanced_matched_iff.mpr split⟩
  refine ⟨splits, succeeds, ?_, fun index rest => ?_⟩
  · rw [balanced_mismatch_iff, succeeds]
  · simp only [listIndex_matched_iff, balancedToBracket_matched_iff]
    constructor
    · rintro ⟨content, rfl, rfl, notBlank, passes⟩
      exact ⟨content, by simp, rfl, notBlank, trivial, passes,
        stopsAt_cons_iff.mpr (.inr (by decide))⟩
    · rintro ⟨content, rfl, rfl, notBlank, -, passes, -⟩
      exact ⟨content, by simp, rfl, notBlank, passes⟩

end HclSyntax.Grammar
