import HclSyntax.Proofs.Grammar.Ending
import HclSyntax.Proofs.Grammar.Reading
import HclSyntax.Proofs.Grammar.Soundness
import Mathlib

/-!
# `HclSyntax.Proofs.Grammar.Roles`: the printer finds the signs and accessors again

The terms of an expression are a flat list, in which a dash may be a sign or an operator and a text may
be a term or an accessor of the one before it. The printer sees the terms only. That its two tests find
the signs and the accessors as they were read (`expressionTerms_roles`) is a matter of the order the terms
come in (`Arranged`): a symbol stands in front of every sign that is not the first term, and none in front
of an operator.
-/

set_option autoImplicit false

namespace HclSyntax.Grammar

open Rule Node

/-! ### The order of the terms -/

/-- The term is one of its role: an operator symbol, a sign, a term that is no symbol and starts like
no accessor, or an accessor. -/
def Reading.Fits (reading : Reading) : Prop :=
  match reading.role with
  | .sign => ∃ sign ∈ ['!', '-'], reading.node = .mathSymbol [sign]
  | .operand => (∀ symbol, reading.node ≠ .mathSymbol symbol)
    ∧ ∀ text, reading.node = .unquotedString text → ∀ c ∈ text.head?, c ∉ ['.', '*', '[']
  | .accessor => ∃ text, reading.node = .unquotedString text ∧ ∃ c ∈ text.head?, c ∈ ['.', '[']
  | .operator => ∃ symbol ∈ operatorSymbols, reading.node = .mathSymbol symbol

/-- The first term may stand right in front of the second. -/
def Reading.Precedes (first second : Reading) : Prop :=
  match second.role with
  | .sign => first.role = .sign ∨ first.role = .operator
  | .operand => first.role = .sign ∨ first.role = .operator
  | .accessor => first.role = .operand ∧ (∀ text, first.node ≠ .unquotedString text)
    ∧ ∀ doc, first.node ≠ .heredoc doc
  | .operator => first.role = .operand ∨ first.role = .accessor

/-- Terms in the order of an expression: they start with a sign or a term and end with a term or an
accessor, which is where the text read ends. -/
structure Arranged (readings : List Reading) (rest : Text) : Prop where
  fits : ∀ reading ∈ readings, reading.Fits
  first : ∃ reading ∈ readings.head?, reading.role = .sign ∨ reading.role = .operand
  order : readings.IsChain Reading.Precedes
  last : ∃ reading ∈ readings.getLast?, (reading.role = .operand ∨ reading.role = .accessor)
    ∧ reading.after = rest ∧ EndsBehind reading.before rest

/-- A term that is read is no symbol and starts like no accessor. -/
theorem fits_operand {text rest : Text} {node : Node}
    (reads : operand inner text = .matched node rest) : (⟨.operand, node, text, rest⟩ : Reading).Fits := by
  have isOperand := (operand_shape sound_inner reads).operand
  cases isOperand with
  | unquoted plain =>
    refine ⟨nofun, ?_⟩
    rintro text ⟨⟩ c head listed
    obtain ⟨source, after, found⟩ := plain
    obtain ⟨-, ⟨first, tail, rfl, isText, noPoint, noStar, -⟩, -⟩ := unquotedText_shape found
    obtain rfl : first = c := by simpa using head
    simp only [List.mem_cons, List.not_mem_nil, or_false] at listed
    rcases listed with rfl | rfl | rfl
    · exact noPoint rfl
    · exact noStar rfl
    · exact absurd isText (by decide)
  | _ => exact ⟨nofun, nofun⟩

/-- What is read as an accessor is a text that starts with a point or a bracket. -/
theorem fits_accessor {text found rest : Text} (access : accessor text = .matched found rest) :
    (⟨.accessor, .unquotedString found, text, rest⟩ : Reading).Fits := by
  rcases (accessor_shape access).2.1 with head | head
  · exact ⟨found, rfl, '[', head, by simp⟩
  · exact ⟨found, rfl, '.', head, by simp⟩

/-- A term with an accessor behind it is neither an unquoted text nor a heredoc. -/
theorem takesAccessor_apart {node : Node} (takes : takesAccessor node = true) :
    (∀ text, node ≠ .unquotedString text) ∧ ∀ doc, node ≠ .heredoc doc := by
  constructor <;> rintro _ rfl <;> cases takes

/-- A term with its accessor is in order. -/
theorem arranged_of_readsOperand {text rest : Text} {readings : List Reading}
    (h : ReadsOperand inner text readings rest) : Arranged readings rest := by
  cases h with
  | bare reads =>
    exact ⟨by simpa using fits_operand reads, ⟨_, rfl, .inr rfl⟩, .singleton _,
      ⟨_, rfl, .inl rfl, rfl, Tight.ends reads⟩⟩
  | accessed reads takes access =>
    refine ⟨?_, ⟨_, rfl, .inr rfl⟩, List.isChain_pair.mpr ⟨rfl, takesAccessor_apart takes⟩,
      ⟨_, rfl, .inr rfl, rfl, Tight.ends access⟩⟩
    simpa using ⟨fits_operand reads, fits_accessor access⟩

/-- A sign may stand in front of the terms of an expression. -/
theorem Arranged.signed {sign : Reading} {readings : List Reading} {rest : Text}
    (h : Arranged readings rest) (fits : sign.Fits) (isSign : sign.role = .sign) :
    Arranged (sign :: readings) rest := by
  obtain ⟨fitsBehind, ⟨next, head, starts⟩, order, ⟨last, final, ends⟩⟩ := h
  obtain ⟨tail, rfl⟩ := List.head?_eq_some_iff.mp head
  have precedes : sign.Precedes next := by
    unfold Reading.Precedes
    rcases starts with role | role <;> rw [role] <;> exact .inl isSign
  exact ⟨List.forall_mem_cons.mpr ⟨fits, fitsBehind⟩, ⟨sign, rfl, .inl isSign⟩,
    List.isChain_cons_cons.mpr ⟨precedes, order⟩, ⟨last, by rwa [List.getLast?_cons_cons], ends⟩⟩

/-- An operator may stand between the terms of two expressions. -/
theorem Arranged.operator {symbol : Reading} {front back : List Reading} {middle rest : Text}
    (hfront : Arranged front middle) (hback : Arranged back rest) (fits : symbol.Fits)
    (isOperator : symbol.role = .operator) : Arranged (front ++ symbol :: back) rest := by
  obtain ⟨fitsFront, ⟨first, head, starts⟩, orderFront, ⟨before, final, ends, -⟩⟩ := hfront
  obtain ⟨fitsBack, ⟨next, headBack, startsBack⟩, orderBack, ⟨last, finalBack, endsBack⟩⟩ := hback
  obtain ⟨tail, rfl⟩ := List.head?_eq_some_iff.mp headBack
  -- The operator stands behind the end of a term and in front of a sign or a term.
  have behind : symbol.Precedes next := by
    unfold Reading.Precedes
    rcases startsBack with role | role <;> rw [role] <;> exact .inr isOperator
  have inFront : before.Precedes symbol := by
    unfold Reading.Precedes
    rw [isOperator]
    exact ends
  refine ⟨?_, ⟨first, by rw [List.head?_append, head]; rfl, starts⟩, ?_,
    ⟨last, by rw [List.getLast?_append, List.getLast?_cons_cons, finalBack]; rfl, endsBack⟩⟩
  · rintro reading listed
    rcases List.mem_append.mp listed with listed | _ | ⟨_, listed⟩
    · exact fitsFront reading listed
    · exact fits
    · exact fitsBack reading listed
  · refine List.isChain_append.mpr ⟨orderFront, List.isChain_cons_cons.mpr ⟨behind, orderBack⟩, ?_⟩
    rintro reading isLast _ ⟨⟩
    obtain rfl := Option.some.inj (isLast.symm.trans final)
    exact inFront

/-- A term with its signs is in order. -/
theorem arranged_of_readsUnit {text rest : Text} {readings : List Reading}
    (h : ReadsUnit inner text readings rest) : Arranged readings rest := by
  induction h with
  | unsigned reads => exact arranged_of_readsOperand reads
  | signed isSign _ _ ih => exact ih.signed ⟨_, isSign, rfl⟩ rfl

/-- What is read as an expression has the order of one. -/
theorem arranged_of_readsExpression {multiline : Bool} {text rest : Text} {readings : List Reading}
    (h : ReadsExpression inner multiline text readings rest) : Arranged readings rest := by
  induction h with
  | last unit => exact arranged_of_readsUnit unit
  | more unit operates _ ih =>
    exact (arranged_of_readsUnit unit).operator ih ⟨_, (operator_matched operates).2, rfl⟩ rfl

/-! ### The tests of the printer -/

/-- The symbols are the signs and the operators. -/
theorem Reading.Fits.isSymbol {reading : Reading} (h : reading.Fits) :
    reading.node.isSymbol = true ↔ reading.role = .sign ∨ reading.role = .operator := by
  obtain ⟨role, node, before, after⟩ := reading
  cases role with
  | sign => obtain ⟨sign, -, rfl⟩ := h; simp [Node.isSymbol]
  | operator => obtain ⟨symbol, -, rfl⟩ := h; simp [Node.isSymbol]
  | accessor => obtain ⟨text, rfl, -⟩ := h; simp [Node.isSymbol]
  | operand =>
    cases node with
    | mathSymbol symbol => exact absurd rfl (h.1 symbol)
    | _ => simp [Node.isSymbol]

/-- The printer tells accessors by their first character. -/
theorem isAccessor_iff {node : Node} :
    node.isAccessor = true
      ↔ ∃ text, node = .unquotedString text ∧ ∃ c ∈ text.head?, c ∈ ['.', '['] := by
  unfold Node.isAccessor
  split
  · simp
  · simp
  · next noPoint noBracket =>
    simp only [Bool.false_eq_true, false_iff]
    rintro ⟨text, rfl, c, head, listed⟩
    obtain ⟨tail, rfl⟩ := List.head?_eq_some_iff.mp head
    simp only [List.mem_cons, List.not_mem_nil, or_false] at listed
    rcases listed with rfl | rfl
    · exact noPoint tail rfl
    · exact noBracket tail rfl

/-- The test of the printer finds the accessors. -/
theorem Reading.Fits.isAccessor {reading : Reading} (h : reading.Fits) :
    reading.node.isAccessor = true ↔ reading.role = .accessor := by
  obtain ⟨role, node, before, after⟩ := reading
  rw [isAccessor_iff]
  cases role with
  | sign => obtain ⟨sign, -, rfl⟩ := h; simp
  | operator => obtain ⟨symbol, -, rfl⟩ := h; simp
  | accessor => exact ⟨fun _ => rfl, fun _ => h⟩
  | operand =>
    refine ⟨?_, nofun⟩
    rintro ⟨text, same, c, head, listed⟩
    have other := h.2 text same c head
    simp only [List.mem_cons, List.not_mem_nil, or_false] at listed other
    tauto

/-- The printer takes a term for a sign in front of the next one exactly where it was read as one. -/
theorem Arranged.signBefore_iff {readings : List Reading} {rest : Text} (h : Arranged readings rest)
    {i : Nat} (behindFirst : 1 ≤ i) :
    signBefore (readings.map Reading.node) i = true
      ↔ ∃ reading ∈ readings[i - 1]?, reading.role = .sign := by
  obtain ⟨k, rfl⟩ := Nat.exists_eq_add_of_le' behindFirst
  rw [signBefore, Nat.add_sub_cancel, List.getElem?_map]
  cases here : readings[k]? with
  | none => simp
  | some reading =>
    have fits := h.fits reading (List.mem_of_getElem? here)
    have test : (Option.map Reading.node (some reading)).any Node.isSymbol = true
        ↔ reading.role = .sign ∨ reading.role = .operator := by simpa using fits.isSymbol
    rw [Bool.and_eq_true, test]
    cases k with
    | zero =>
      obtain ⟨first, head, starts⟩ := h.first
      obtain rfl : first = reading := Option.some.inj (by rw [← head, ← here, List.head?_eq_getElem?])
      rcases starts with role | role <;> simp [role]
    | succ k =>
      obtain ⟨inside, same⟩ := List.getElem?_eq_some_iff.mp here
      obtain ⟨previous, before⟩ : ∃ previous, readings[k]? = some previous :=
        ⟨_, List.getElem?_eq_getElem (by omega)⟩
      have order : previous.Precedes reading := by
        obtain ⟨_, rfl⟩ := List.getElem?_eq_some_iff.mp before
        exact same ▸ h.order.getElem k inside
      have symbols := (h.fits previous (List.mem_of_getElem? before)).isSymbol
      have position : k + 1 + 1 - 2 = k := by omega
      rw [position, List.getElem?_map, before]
      -- A symbol stands in front of a sign, and none in front of an operator.
      unfold Reading.Precedes at order
      cases role : reading.role with
      | sign =>
        rw [role] at order
        simpa [role, symbols] using order
      | operand | accessor => simp [role]
      | operator =>
        rw [role] at order
        have noSymbol : previous.node.isSymbol = false := by
          rw [← Bool.not_eq_true, symbols]
          rcases order with previous | previous <;> simp [previous]
        simp [role, noSymbol]

/-- The printer takes a term for an accessor exactly where it was read as one. -/
theorem Arranged.isAccessor_iff {readings : List Reading} {rest : Text} (h : Arranged readings rest)
    (i : Nat) :
    (∃ term ∈ (readings.map Reading.node)[i]?, term.isAccessor = true)
      ↔ ∃ reading ∈ readings[i]?, reading.role = .accessor := by
  rw [List.getElem?_map]
  cases here : readings[i]? with
  | none => simp
  | some reading => simpa using (h.fits reading (List.mem_of_getElem? here)).isAccessor

/-- The terms of an expression are read one after the other and in one way only, in the order of signs,
a term and an accessor with operators between such groups. The printer has nothing but the terms: what
it puts in front of each is told by its position, by what `signBefore` and `Node.isAccessor` say there
(`gapAt`). These two tests find the signs and the accessors as they were read. What is taken of the text
ends with the last term or accessor, and not with white space. -/
theorem expressionTerms_roles {multiline : Bool} {text rest : Text} {terms : List Node}
    (h : expressionTerms inner multiline text = .matched terms rest) :
    ∃ readings, ReadsExpression inner multiline text readings rest
      ∧ (∀ others final, ReadsExpression inner multiline text others final → others = readings)
      ∧ terms = readings.map Reading.node
      ∧ (∀ reading ∈ readings, reading.after <:+ reading.before ∧ reading.before <:+ text)
      ∧ Arranged readings rest
      ∧ (∀ layout, valueForm layout (.unquotedExpression terms)
          = terms.zipIdx.flatMap fun (term, i) => gapAt layout terms i ++ valueForm layout term)
      ∧ ∀ i, 1 ≤ i →
          (signBefore terms i = true ↔ ∃ reading ∈ readings[i - 1]?, reading.role = .sign)
          ∧ ((∃ term ∈ terms[i]?, term.isAccessor = true)
            ↔ ∃ reading ∈ readings[i]?, reading.role = .accessor) := by
  obtain ⟨readings, reads, rfl⟩ := expressionTerms_matched_iff.mp h
  have arranged := arranged_of_readsExpression reads
  refine ⟨readings, reads, fun others final again => (reads.unique again).1.symm, rfl, reads.inside,
    arranged, fun layout => termsForm_eq_flatMap _, fun i behindFirst => ?_⟩
  exact ⟨arranged.signBefore_iff behindFirst, arranged.isAccessor_iff i⟩

/-- Two signs, a string with an index and a dash that is an operator, in front of an operator that no
term follows. -/
theorem expressionTerms_roles_dashes :
    ∃ readings, ReadsExpression inner true "!-\"a\"[0] - b *".toList readings " *".toList
      ∧ (∃ reading ∈ readings[1]?, reading.role = .sign)
      ∧ (∃ reading ∈ readings[3]?, reading.role = .accessor)
      ∧ ¬ ∃ reading ∈ readings[4]?, reading.role = .sign := by
  have h : expressionTerms inner true "!-\"a\"[0] - b *".toList
      = .matched [.mathSymbol ['!'], .mathSymbol ['-'], .string ['a'], .unquotedString "[0]".toList,
        .mathSymbol ['-'], .unquotedString ['b']] " *".toList := by cbv
  obtain ⟨readings, reads, -, -, -, -, -, tests⟩ := expressionTerms_roles h
  refine ⟨readings, reads, (tests 2 (by decide)).1.mp (by decide),
    (tests 3 (by decide)).2.mp ⟨_, rfl, rfl⟩, fun sign => ?_⟩
  exact absurd ((tests 5 (by decide)).1.mpr sign) (by decide)

end HclSyntax.Grammar
