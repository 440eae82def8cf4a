import HclSyntax.Proofs.Grammar.Consumption

/-!
# `HclSyntax.Proofs.Grammar.Reading`: how expressions are read

`ReadsExpression` says how the rules go over an expression, and keeps for each term what it was read as
and where. The rules for terms with signs and for expressions give the terms of such a reading
(`unaryOperand_matched_iff`, `expressionTerms_matched_iff`), so what holds of the terms of an expression
is proved by induction on the reading. There is one reading for a text (`ReadsExpression.unique`), and
all of it is inside the text (`ReadsExpression.inside`).
-/

set_option autoImplicit false

namespace HclSyntax.Grammar

open Rule Node

/-! ### Terms and what they are read as -/

/-- What a term is in an expression. -/
inductive Role
  | sign
  | operand
  | accessor
  | operator
deriving DecidableEq

/-- A term of an expression as it was read: in `before`, which starts with it, up to `after`. -/
structure Reading where
  role : Role
  node : Node
  before : Text
  after : Text

/-- A term and the accessors after it are read. -/
inductive ReadsOperand (rules : Inner) : Text → List Reading → Text → Prop
  | bare {text rest : Text} {node : Node} (reads : operand rules text = .matched node rest)
    (noAccessor : takesAccessor node = true → accessor.Mismatches rest) :
    ReadsOperand rules text [⟨.operand, node, text, rest⟩] rest
  | accessed {text behind found rest : Text} {node : Node}
    (reads : operand rules text = .matched node behind) (takes : takesAccessor node = true)
    (access : accessor behind = .matched found rest) :
    ReadsOperand rules text
      [⟨.operand, node, text, behind⟩, ⟨.accessor, .unquotedString found, behind, rest⟩] rest

/-- A term is read with the signs in front of it. A sign is one only where no term starts. -/
inductive ReadsUnit (rules : Inner) : Text → List Reading → Text → Prop
  | unsigned {text rest : Text} {readings : List Reading} (h : ReadsOperand rules text readings rest) :
    ReadsUnit rules text readings rest
  | signed {sign : Char} {behind rest : Text} {readings : List Reading}
    (isSign : sign ∈ ['!', '-']) (noTerm : (operandWithAccessor rules).Mismatches (sign :: behind))
    (unit : ReadsUnit rules behind.trimStart readings rest) :
    ReadsUnit rules (sign :: behind) (⟨.sign, .mathSymbol [sign], sign :: behind, behind⟩ :: readings)
      rest

/-- Terms are read with operators between them, up to where no operator with a term behind it
follows. -/
inductive ReadsExpression (rules : Inner) (multiline : Bool) : Text → List Reading → Text → Prop
  | last {text rest : Text} {readings : List Reading} (unit : ReadsUnit rules text readings rest)
    (ends : (operation rules multiline).Mismatches rest) :
    ReadsExpression rules multiline text readings rest
  | more {text middle behind rest symbol : Text} {front back : List Reading}
    (unit : ReadsUnit rules text front middle)
    (operates : operator (skip multiline middle) = .matched symbol behind)
    (others : ReadsExpression rules multiline behind.trimStart back rest) :
    ReadsExpression rules multiline text
      (front ++ ⟨.operator, .mathSymbol symbol, skip multiline middle, behind⟩ :: back) rest

/-! ### The rules give what is read -/

section Reads

variable {rules : Inner} {multiline : Bool} {text rest : Text} {terms : List Node}

/-- The rule for a term with its accessor finds what the grammar of terms says. -/
theorem operandWithAccessor_matched_iff :
    operandWithAccessor rules text = .matched terms rest
      ↔ ∃ readings, ReadsOperand rules text readings rest ∧ terms = readings.map Reading.node := by
  constructor
  · intro h
    obtain ⟨node, behind, found, h⟩ := bind_matched_iff.mp h
    split at h
    · next takes =>
      obtain ⟨access, tail, optional, h⟩ := bind_matched_iff.mp h
      rcases optional_matched_iff.mp optional with ⟨text, rfl, taken⟩ | ⟨rfl, none, rfl⟩
      · obtain ⟨rfl, rfl⟩ := pure_matched_iff.mp h
        exact ⟨_, .accessed found takes taken, rfl⟩
      · obtain ⟨rfl, rfl⟩ := pure_matched_iff.mp h
        exact ⟨_, .bare found fun _ => none, rfl⟩
    · next bare =>
      obtain ⟨rfl, rfl⟩ := pure_matched_iff.mp h
      exact ⟨_, .bare found fun takes => absurd takes bare, rfl⟩
  · rintro ⟨readings, reads, rfl⟩
    cases reads with
    | @bare _ node found noAccessor =>
      cases takes : takesAccessor node with
      | true => exact operandWithAccessor_matched found takes (optional_of_mismatches (noAccessor takes))
      | false => exact operandWithAccessor_bare found takes
    | accessed found takes access =>
      exact operandWithAccessor_matched found takes (optional_of_matched access)

/-- So does the rule for a term with its signs. -/
theorem unaryOperand_matched_iff :
    unaryOperand rules text = .matched terms rest
      ↔ ∃ readings, ReadsUnit rules text readings rest ∧ terms = readings.map Reading.node := by
  constructor
  · intro h
    -- Induction on the number of signs that can be taken.
    induction text using signs_induction generalizing terms with
    | step text ih =>
      rw [unaryOperand_eq] at h
      rcases orElse_matched_iff.mp h with found | ⟨noTerm, signed⟩
      · obtain ⟨readings, reads, same⟩ := operandWithAccessor_matched_iff.mp found
        exact ⟨readings, .unsigned reads, same⟩
      · simp only [signedOperand, bind_matched_iff, whitespace_matched_iff, pure_matched_iff]
          at signed
        obtain ⟨sign, behind, takes, _, _, rfl, terms, _, found, rfl, rfl⟩ := signed
        obtain ⟨readings, reads, rfl⟩ := ih takes found
        obtain ⟨rfl, isSign⟩ := oneOf_matched_iff.mp takes
        exact ⟨_, .signed isSign noTerm reads, rfl⟩
  · rintro ⟨readings, reads, rfl⟩
    induction reads with
    | unsigned reads =>
      rw [unaryOperand_eq]
      exact orElse_of_matched (operandWithAccessor_matched_iff.mpr ⟨_, reads, rfl⟩) _
    | @signed sign behind rest readings isSign noTerm unit ih =>
      rw [unaryOperand_eq, orElse_of_mismatches noTerm, signedOperand,
        bind_of_matched (oneOf_matched_iff.mpr ⟨rfl, isSign⟩),
        bind_of_matched (whitespace_apply behind), bind_of_matched ih]
      rfl

/-- Operators and the terms after them go on with an expression. -/
theorem reads_of_operations {middle : Text} {front : List Reading} {operations : List (List Node)}
    (unit : ReadsUnit rules text front middle)
    (h : many (operation rules multiline) middle = .matched operations rest) :
    ∃ readings, ReadsExpression rules multiline text readings rest
      ∧ front.map Reading.node ++ operations.flatten = readings.map Reading.node := by
  induction h using many_induction generalizing text front with
  | ends mismatches => exact ⟨front, .last unit mismatches, by simp⟩
  | element found _ _ ih =>
    obtain ⟨symbol, behind, operands, operates, term, rfl⟩ := operation_matched_iff.mp found
    obtain ⟨next, following, rfl⟩ := unaryOperand_matched_iff.mp term
    obtain ⟨back, reads, same⟩ := ih following
    exact ⟨_, .more unit operates reads, by simp [← same]⟩

/-- So does the rule for an expression. -/
theorem reads_of_expressionTerms (h : expressionTerms rules multiline text = .matched terms rest) :
    ∃ readings, ReadsExpression rules multiline text readings rest
      ∧ terms = readings.map Reading.node := by
  rw [expressionTerms_eq] at h
  obtain ⟨first, middle, found, h⟩ := bind_matched_iff.mp h
  obtain ⟨operations, tail, more, h⟩ := bind_matched_iff.mp h
  obtain ⟨rfl, rfl⟩ := pure_matched_iff.mp h
  obtain ⟨front, unit, rfl⟩ := unaryOperand_matched_iff.mp found
  exact reads_of_operations unit more

/-- An expression is read term by term. -/
theorem expressionTerms_matched_iff [Descends rules.value] [Descends rules.declarations] :
    expressionTerms rules multiline text = .matched terms rest
      ↔ ∃ readings, ReadsExpression rules multiline text readings rest
          ∧ terms = readings.map Reading.node := by
  refine ⟨reads_of_expressionTerms, ?_⟩
  rintro ⟨readings, reads, rfl⟩
  -- The first term of an expression is what the operation in front of it needs.
  suffices ∃ first middle others, unaryOperand rules text = .matched first middle
      ∧ many (operation rules multiline) middle = .matched others rest
      ∧ readings.map Reading.node = first ++ others.flatten by
    obtain ⟨first, middle, others, found, more, same⟩ := this
    exact bind_matched_iff.mpr ⟨first, middle, found,
      bind_matched_iff.mpr ⟨others, rest, more, by rw [same]; rfl⟩⟩
  induction reads with
  | last unit ends =>
    exact ⟨_, _, [], unaryOperand_matched_iff.mpr ⟨_, unit, rfl⟩, many_of_mismatches ends, by simp⟩
  | more unit operates others ih =>
    obtain ⟨first, middle, others, found, more, same⟩ := ih
    have one := operation_matched_iff.mpr ⟨_, _, _, operates, found, rfl⟩
    refine ⟨_, _, _, unaryOperand_matched_iff.mpr ⟨_, unit, rfl⟩,
      many_of_matched one (Consumes.shortens one) more, ?_⟩
    simp [same]

/-! ### One reading for a text -/

variable {readings others : List Reading} {final : Text}

/-- A term with its accessor is read in one way only. -/
theorem ReadsOperand.unique (h : ReadsOperand rules text readings rest)
    (other : ReadsOperand rules text others final) : readings = others ∧ rest = final := by
  cases h with
  | bare reads noAccessor =>
    cases other with
    | bare again =>
      cases reads.symm.trans again
      exact ⟨rfl, rfl⟩
    | accessed again takes access =>
      cases reads.symm.trans again
      exact absurd (noAccessor takes) (not_mismatches_of_matched access)
  | accessed reads takes access =>
    cases other with
    | bare again noAccessor =>
      cases reads.symm.trans again
      exact absurd (noAccessor takes) (not_mismatches_of_matched access)
    | accessed again _ accessAgain =>
      cases reads.symm.trans again
      cases access.symm.trans accessAgain
      exact ⟨rfl, rfl⟩

/-- A term with its signs is read in one way only. -/
theorem ReadsUnit.unique (h : ReadsUnit rules text readings rest)
    (other : ReadsUnit rules text others final) : readings = others ∧ rest = final := by
  -- A sign is taken only where no term could be read.
  have apart {text rest : Text} {readings : List Reading} (reads : ReadsOperand rules text readings rest)
      (noTerm : (operandWithAccessor rules).Mismatches text) : False :=
    not_mismatches_of_matched (operandWithAccessor_matched_iff.mpr ⟨_, reads, rfl⟩) noTerm
  induction h generalizing others final with
  | unsigned reads =>
    cases other with
    | unsigned again => exact reads.unique again
    | signed _ noTerm => exact (apart reads noTerm).elim
  | signed _ noTerm _ ih =>
    cases other with
    | unsigned again => exact (apart again noTerm).elim
    | signed _ _ again =>
      obtain ⟨rfl, rfl⟩ := ih again
      exact ⟨rfl, rfl⟩

/-- An expression starts with a term. -/
theorem ReadsExpression.first (h : ReadsExpression rules multiline text readings rest) :
    ∃ terms middle, unaryOperand rules text = .matched terms middle := by
  cases h with
  | last unit => exact ⟨_, _, unaryOperand_matched_iff.mpr ⟨_, unit, rfl⟩⟩
  | more unit => exact ⟨_, _, unaryOperand_matched_iff.mpr ⟨_, unit, rfl⟩⟩

/-- A text is read as an expression in one way. -/
theorem ReadsExpression.unique (h : ReadsExpression rules multiline text readings rest)
    (other : ReadsExpression rules multiline text others final) :
    readings = others ∧ rest = final := by
  -- Where an operator and an expression follow, the first term is not the last one.
  have apart {middle behind symbol rest : Text} {readings : List Reading}
      (ends : (operation rules multiline).Mismatches middle)
      (operates : operator (skip multiline middle) = .matched symbol behind)
      (reads : ReadsExpression rules multiline behind.trimStart readings rest) : False := by
    obtain ⟨terms, after, found⟩ := reads.first
    exact not_mismatches_of_matched (operation_matched_iff.mpr ⟨_, _, _, operates, found, rfl⟩) ends
  induction h generalizing others final with
  | last unit ends =>
    cases other with
    | last again => exact unit.unique again
    | more again operates reads =>
      obtain ⟨-, rfl⟩ := unit.unique again
      exact (apart ends operates reads).elim
  | more unit operates reads ih =>
    cases other with
    | last again ends =>
      obtain ⟨-, rfl⟩ := unit.unique again
      exact (apart ends operates reads).elim
    | more again operatesAgain readsAgain =>
      obtain ⟨rfl, rfl⟩ := unit.unique again
      cases operates.symm.trans operatesAgain
      obtain ⟨rfl, rfl⟩ := ih readsAgain
      exact ⟨rfl, rfl⟩

end Reads

/-! ### Where the terms are read -/

section Inside

variable {rules : Inner} [Descends rules.value] [Descends rules.declarations] {text rest : Text}
  {readings : List Reading}

/-- Each part is read from an end of the text. -/
theorem ReadsOperand.inside (h : ReadsOperand rules text readings rest) :
    ∀ reading ∈ readings, reading.after <:+ reading.before ∧ reading.before <:+ text := by
  cases h with
  | bare reads => simpa using Descends.of_matched reads
  | accessed reads _ access =>
    have start := Descends.of_matched reads
    simpa [start] using Descends.of_matched access

/-- The same for a term with its signs. -/
theorem ReadsUnit.inside (h : ReadsUnit rules text readings rest) :
    ∀ reading ∈ readings, reading.after <:+ reading.before ∧ reading.before <:+ text := by
  induction h with
  | unsigned reads => exact reads.inside
  | @signed sign behind rest readings _ _ _ ih =>
    refine List.forall_mem_cons.mpr ⟨⟨List.suffix_cons .., List.suffix_refl _⟩, fun reading listed => ?_⟩
    obtain ⟨taken, inside⟩ := ih reading listed
    exact ⟨taken, inside.trans ((Text.trimStart_suffix _).trans (List.suffix_cons ..))⟩

/-- Every term is read inside the text. -/
theorem ReadsExpression.inside {multiline : Bool}
    (h : ReadsExpression rules multiline text readings rest) :
    ∀ reading ∈ readings, reading.after <:+ reading.before ∧ reading.before <:+ text := by
  induction h with
  | last unit => exact unit.inside
  | @more text middle behind rest symbol front back unit operates _ ih =>
    have start : middle <:+ text :=
      Descends.of_matched (unaryOperand_matched_iff.mpr ⟨_, unit, rfl⟩)
    have skipped : skip multiline middle <:+ text := (skip_suffix ..).trans start
    have taken := Descends.of_matched operates
    refine List.forall_mem_append.mpr ⟨unit.inside, List.forall_mem_cons.mpr ⟨⟨taken, skipped⟩,
      fun reading listed => ?_⟩⟩
    obtain ⟨own, inside⟩ := ih reading listed
    exact ⟨own, ((inside.trans (Text.trimStart_suffix _)).trans taken).trans skipped⟩

end Inside

end HclSyntax.Grammar
