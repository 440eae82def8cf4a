import HclSyntax.Proofs.RoundTrip.Operand

/-!
# `HclSyntax.Proofs.RoundTrip.Expression`: expressions are read back

The terms of an expression are read back one operand after the other (`unaryOperand_form`), each with
its signs and accessors, and the operators between them (`expressionTerms_form`). What the operands
need is in `TermsRead`: each is read back by itself, no sign goes over into a number, and a heredoc
ends its line.
-/

set_option autoImplicit false

namespace HclSyntax.Grammar

open Rule Node

variable {layout : Layout}

/-- The terms of an expression can be read back. -/
structure TermsRead (layout : Layout) (terms : List Node) : Prop where
  reads : ∀ term ∈ terms, IsOperand term → OperandReads layout term
  signs : bindsSign true terms = false
  lines : layout.isCompact = false → ∀ term ∈ terms.dropLast, term.endsInHeredoc = true →
    term.isHeredoc = true

/-! ### Signs -/

/-- Behind a sign no number starts, unless it has a sign of its own. -/
theorem notNumber_of_operand {node : Node} (h : IsOperand node) (notUnsigned : node.isUnsigned = false)
    {rest : Text} (follows : OperandEnd node rest) :
    (valueForm layout node ++ rest).head? = some '-'
      ∨ number.Mismatches (valueForm layout node ++ rest) := by
  -- Most operands start with a character that no number starts with: a letter or a mark of their
  -- own.
  have ofHead (accepts : Char → Bool) (starts : StartsWith accepts (valueForm layout node))
      (apart : ∀ c, accepts c = true → (c.isDigit || c == '-') = false) :
      number.Mismatches (valueForm layout node ++ rest) := by
    obtain ⟨c, more, shape, accepted⟩ := starts
    rw [shape]
    exact mismatches_number ((Text.stops_cons ..).mpr (apart c accepted))
  have mark (c : Char) (hc : (c.isDigit || c == '-') = false)
      (starts : ∃ more, valueForm layout node = c :: more) :
      number.Mismatches (valueForm layout node ++ rest) := by
    obtain ⟨more, shape⟩ := starts
    rw [shape]
    exact mismatches_number ((Text.stops_cons ..).mpr hc)
  cases h with
  | call isName =>
    exact .inr (ofHead isAlphabetic (isName.starts.append _) fun _ => startsNumber_of_isAlphabetic)
  | group =>
    refine .inr (mark '(' (by decide) ?_)
    rw [valueForm_function, argumentsForm]
    split <;> exact ⟨_, rfl⟩
  | @loop loop _ brackets =>
    have opens := (by decide : ∀ pair ∈ loopBrackets, (pair.1.isDigit || pair.1 == '-') = false)
    exact .inr (mark loop.opening (opens _ brackets) ⟨_, rfl⟩)
  | list => exact .inr (mark '[' (by decide) (listForm_starts _))
  | map => exact .inr (mark '{' (by decide) (bodyForm_starts _))
  | heredoc => exact .inr (mark '<' (by decide) ⟨_, rfl⟩)
  | string => exact .inr (mark '"' (by decide) ⟨_, rfl⟩)
  | @numberOrBool text literal =>
    -- A literal that is a number has a sign already, since it is not unsigned.
    by_cases digits : IsNumber text
    · have sign : text.head? = some '-' := by simpa [isUnsigned, digits] using notUnsigned
      obtain ⟨more, rfl⟩ := List.head?_eq_some_iff.mp sign
      exact .inl rfl
    · exact .inr (ofHead isAlphabetic (literal.resolve_left digits).starts
        fun _ => startsNumber_of_isAlphabetic)
  | unquoted plain notNumber =>
    exact .inr (mismatches_number_append notNumber (TermEnd.isNumberChar follows))

/-- Neither sign starts an operand. -/
theorem mismatches_operand_sign {sign : Char} (isSign : sign = '!' ∨ sign = '-') {text : Text}
    (notNumber : sign = '-' → text.head? = some '-' ∨ number.Mismatches text) :
    (operand inner).Mismatches (sign :: text) := by
  rcases isSign with rfl | rfl
  · exact mismatches_operand (by decide) (by decide)
      (mismatches_number ((Text.stops_cons ..).mpr (by decide)))
  · exact mismatches_operand (by decide) (by decide) (mismatches_number_sign (notNumber rfl))

/-! ### Operands with signs and accessors -/

/-- A term with an accessor behind it is neither a heredoc nor an unquoted text. -/
theorem takesAccessor_iff {node : Node} (h : takesAccessor node = true) :
    node.isHeredoc = false ∧ ∀ text, node ≠ .unquotedString text := by
  cases node with
  | heredoc => exact absurd h Bool.false_ne_true
  | unquotedString => exact absurd h Bool.false_ne_true
  | _ => exact ⟨rfl, nofun⟩

/-- An operand ends where a term does. -/
theorem TermEnd.operandEnd {rest : Text} (h : TermEnd rest) (node : Node) : OperandEnd node rest := by
  cases node with
  | numberOrBool => exact ⟨h.stops (by decide), h.2⟩
  | unquotedString => exact h
  | _ => trivial

/-- An operand other than unquoted text ends where its accessor starts. -/
theorem operandEnd_accessor {node : Node} {text rest : Text} (takes : takesAccessor node = true)
    (index : ∀ number, node = .numberOrBool number → text.head? = some '[') :
    OperandEnd node (text ++ rest) := by
  cases node with
  | numberOrBool word =>
    obtain ⟨more, rfl⟩ := List.head?_eq_some_iff.mp (index word rfl)
    refine ⟨(Text.stops_cons ..).mpr (by decide), ?_⟩
    rw [List.cons_append, Text.trimInline_of_stops ((Text.stops_cons ..).mpr (by decide))]
    simp
  | unquotedString text => exact absurd takes Bool.false_ne_true
  | _ => trivial

/-- The printer takes an accessor for one. -/
theorem IsAccessorText.isAccessor {text : Text} (h : IsAccessorText text) :
    (Node.unquotedString text).isAccessor = true := by
  obtain ⟨source, rest, found⟩ := h
  rcases (accessor_shape found).2.1 with head | head <;>
    obtain ⟨more, rfl⟩ := List.head?_eq_some_iff.mp head <;> rfl

/-- A term that no accessor and no operator follows is the whole expression. -/
theorem expressionTerms_single {rules : Inner} {multiline : Bool} {text rest : Text} {node : Node}
    (reads : operand rules text = .matched node rest)
    (noAccessor : takesAccessor node = true → accessor.Mismatches rest)
    (noOperator : operator.Mismatches (skip multiline rest)) :
    expressionTerms rules multiline text = .matched [node] rest := by
  have unsigned : operandWithAccessor rules text = .matched [node] rest := by
    cases takes : takesAccessor node with
    | false => exact operandWithAccessor_bare reads takes
    | true => exact operandWithAccessor_matched reads takes (optional_of_mismatches (noAccessor takes))
  have first : unaryOperand rules text = .matched [node] rest := by
    rw [unaryOperand_eq]
    exact orElse_of_matched unsigned _
  have others : many (operation rules multiline) rest = .matched [] rest := by
    refine many_of_mismatches ?_
    rw [Mismatches, operation_apply]
    exact noOperator.bind _
  exact bind_matched_iff.mpr ⟨[node], rest, first, bind_matched_iff.mpr ⟨[], rest, others, rfl⟩⟩

/-- No accessor stands where there is no term. -/
theorem mismatches_operandWithAccessor {text : Text} (h : (operand inner).Mismatches text) :
    (operandWithAccessor inner).Mismatches text :=
  h.bind _

/-- Behind a sign no number starts that it would become the sign of. -/
theorem notNumber_of_unary {terms : List Node} (h : IsUnary terms)
    (notUnsigned : terms.head?.any isUnsigned = false) {rest : Text} (follows : TermEnd rest) :
    (termsForm layout terms ++ rest).head? = some '-'
      ∨ number.Mismatches (termsForm layout terms ++ rest) := by
  cases h with
  | bare operand =>
    rw [termsForm_singleton]
    exact notNumber_of_operand operand (by simpa using notUnsigned) (follows.operandEnd _)
  | @accessed node text operand takes isAccessor index =>
    rw [termsForm_accessor (takesAccessor_iff takes).1 isAccessor.isAccessor, List.append_assoc]
    exact notNumber_of_operand operand (by simpa using notUnsigned)
      (operandEnd_accessor takes index)
  | @signed sign others isSign unary =>
    rw [termsForm_sign unary.ne_nil, List.singleton_append, List.cons_append]
    rcases isSign with rfl | rfl
    · exact .inr (mismatches_number ((Text.stops_cons ..).mpr (by decide)))
    · exact .inl rfl

/-- What can be read back as a whole can be without its first sign. -/
theorem TermsRead.tail {sign : Node} {terms : List Node} (nonempty : terms ≠ [])
    (symbol : sign.isSymbol = true) (read : TermsRead layout (sign :: terms)) :
    TermsRead layout terms where
  reads term mem := read.reads term (List.mem_cons_of_mem _ mem)
  signs := symbol ▸ (Bool.or_eq_false_iff.mp read.signs).2
  lines block term mem := by
    obtain ⟨first, rest, rfl⟩ := List.exists_cons_of_ne_nil nonempty
    exact read.lines block term (List.mem_cons_of_mem _ mem)

/-- An operand with its signs and accessors is read back. -/
theorem unaryOperand_form {terms : List Node} (h : IsUnary terms) (read : TermsRead layout terms)
    {rest : Text} (follows : TermEnd rest)
    (closes : layout.isCompact = false → lastEndsInHeredoc terms = true → ClosesLine rest) :
    unaryOperand inner (termsForm layout terms ++ rest)
      = .matched terms (overhang layout terms ++ rest) := by
  -- Only a sign goes on to another unary operand, so the induction is on the terms behind it.
  induction terms generalizing rest with
  | nil => exact absurd rfl h.ne_nil
  | cons term others ih =>
    rw [unaryOperand_eq]
    cases h with
    | bare operand =>
      have reads := read.reads term (by simp) operand rest (follows.operandEnd term)
        ⟨closes, fun _ line => by cases operand <;> exact absurd line Bool.false_ne_true⟩
      rw [termsForm_singleton]
      refine orElse_of_matched ?_ _
      cases takes : takesAccessor term with
      | false => exact operandWithAccessor_bare reads takes
      | true =>
        rw [overhang_of_notHeredoc (takesAccessor_iff takes).1, List.nil_append] at reads ⊢
        exact operandWithAccessor_matched reads takes (optional_of_mismatches follows.noAccessor)
    | @accessed _ text operand takes isAccessor index =>
      obtain ⟨noHeredoc, -⟩ := takesAccessor_iff takes
      -- A heredoc takes no accessor, so nothing is asked of the end of the line.
      have line : LineEnd layout term (text ++ rest) := by
        refine ⟨fun block ends => ?_, fun _ line => ?_⟩
        · have heredoc := read.lines block term (by simp) ends
          simp [noHeredoc] at heredoc
        · cases operand <;> exact absurd line Bool.false_ne_true
      have reads := read.reads term (by simp) operand _ (operandEnd_accessor takes index) line
      rw [overhang_of_notHeredoc noHeredoc, List.nil_append] at reads
      rw [termsForm_accessor noHeredoc isAccessor.isAccessor, List.append_assoc]
      have nothing : overhang layout [term, .unquotedString text] = [] := by
        simp [overhang, isHeredoc]
      rw [nothing, List.nil_append]
      refine orElse_of_matched ?_ _
      exact operandWithAccessor_matched reads takes
        (optional_of_matched (accessor_append isAccessor follows.isTextChar follows.noIndex))
    | @signed sign _ isSign unary =>
      have front : StartsWith startsTerm (termsForm layout others) := unary.starts
      have reads := ih unary (read.tail unary.ne_nil rfl) follows fun block ends => closes block (by
        obtain ⟨next, more, rfl⟩ := List.exists_cons_of_ne_nil unary.ne_nil
        exact ends)
      have behind : overhang layout (.mathSymbol [sign] :: others) = overhang layout others := by
        obtain ⟨next, more, rfl⟩ := List.exists_cons_of_ne_nil unary.ne_nil
        rw [overhang, overhang, List.getLast?_cons_cons]
      -- The rule tries an operand before a sign, and a minus could be the sign of a number.
      have noOperand : (operand inner).Mismatches (sign :: (termsForm layout others ++ rest)) := by
        refine mismatches_operand_sign isSign fun minus => ?_
        have apart := (Bool.or_eq_false_iff.mp read.signs).1
        exact notNumber_of_unary unary (by simpa [isMinus, minus] using apart) follows
      rw [termsForm_sign unary.ne_nil, behind, List.singleton_append, List.cons_append,
        orElse_of_mismatches (mismatches_operandWithAccessor noOperand)]
      have noSpace := (front.mono fun _ => startsItem_of_startsTerm).trimStart rest
      simp only [signedOperand, bind_matched_iff, oneOf_matched_iff, whitespace_matched_iff,
        pure_matched_iff]
      exact ⟨sign, _, ⟨rfl, by simpa using isSign⟩, (), _, noSpace, others, _, reads, rfl, rfl⟩

/-! ### Operators -/

/-- Behind a term stands an operator, apart from it and readable. -/
theorem operator_behind {multiline : Bool} {terms : List Node} {symbol : Text}
    (listed : symbol ∈ operatorSymbols)
    (lines : multiline = false → terms.getLast?.any isHeredoc = false) (rest : Text) :
    TermEnd (lineBreak layout terms ++ (symbol ++ ' ' :: rest))
      ∧ operator (skip multiline (overhang layout terms
          ++ (lineBreak layout terms ++ (symbol ++ ' ' :: rest)))) = .matched symbol (' ' :: rest) := by
  obtain ⟨c, tail, shape, starts⟩ := startsOperator_of_mem listed
  have apart : isWhitespace c = false ∧ c ≠ '(' := by
    have each : ∀ c ∈ ['>', '<', '!', '=', '&', '|', '/', '*', '%', '+', '-', '?', ':'],
        isWhitespace c = false ∧ c ≠ '(' := by decide
    exact each c (List.contains_iff_mem.mp starts)
  have notInline : Text.isInline c = false := by simp [Text.isInline, apart]
  have reads := operator_append listed rest
  -- What is between the term and the operator is skipped: all of it in an expression of many lines,
  -- and no line break in one of a single line.
  have skips (space : Text) (inline : multiline = false → ∀ d ∈ space, Text.isInline d = true)
      (allSpace : Text.AllSpace space) :
      skip multiline (space ++ (symbol ++ ' ' :: rest)) = symbol ++ ' ' :: rest := by
    rw [shape]
    cases multiline with
    | true =>
      change Text.trimStart _ = _
      rw [Text.trimStart_append allSpace]
      exact Text.trimStart_cons apart.1 _
    | false =>
      exact Text.dropWhile_append_of_stops (inline rfl) ((Text.stops_cons ..).mpr notInline)
  -- Behind a heredoc a line break comes first, left over from it in the compact layout and printed
  -- in the other.
  cases heredoc : terms.getLast?.any isHeredoc with
  | false =>
    have nothing : overhang layout terms = [] := by simp [overhang, heredoc]
    have space : lineBreak layout terms = [' '] := by simp [lineBreak, heredoc]
    have inline : ∀ d ∈ [' '], Text.isInline d = true := by decide
    rw [nothing, space, List.nil_append, skips [' '] (fun _ => inline)
      (by simp [Text.AllSpace]; decide)]
    refine ⟨?_, reads⟩
    rw [shape]
    exact termEnd_space notInline apart.2
  | true =>
    -- An expression on one line has no heredoc in front of an operator.
    have isMultiline : multiline = true := by
      rw [← Bool.not_eq_false]
      intro oneLine
      simp [lines oneLine] at heredoc
    cases compact : layout.isCompact with
    | true =>
      have feed : overhang layout terms = ['\n'] := by simp [overhang, heredoc, compact]
      have space : lineBreak layout terms = [' '] := by simp [lineBreak, compact]
      have joined : ['\n'] ++ ([' '] ++ (symbol ++ ' ' :: rest))
          = ['\n', ' '] ++ (symbol ++ ' ' :: rest) := rfl
      rw [feed, space, joined, skips ['\n', ' '] (by simp [isMultiline])
        (by simp [Text.AllSpace]; decide)]
      refine ⟨?_, reads⟩
      rw [shape]
      exact termEnd_space notInline apart.2
    | false =>
      have nothing : overhang layout terms = [] := by simp [overhang, compact]
      have feed : lineBreak layout terms = ['\n'] := by simp [lineBreak, heredoc, compact]
      rw [nothing, feed, List.nil_append, skips ['\n'] (by simp [isMultiline])
        (by simp [Text.AllSpace]; decide)]
      exact ⟨termEnd_cons (by decide) (by decide), reads⟩

section Parts

variable {front back : List Node} {symbol : Text}

/-- What can be read back as a whole can be up to an operator. -/
theorem TermsRead.before (read : TermsRead layout (front ++ .mathSymbol symbol :: back)) :
    TermsRead layout front where
  reads term mem := read.reads term (by simp [mem])
  signs := bindsSign_front read.signs
  lines block term mem := by
    refine read.lines block term ?_
    rw [List.dropLast_append_of_ne_nil (by simp)]
    exact List.mem_append_left _ (List.mem_of_mem_dropLast mem)

/-- The terms in front of an operator end in a heredoc only as one. -/
theorem TermsRead.lines_before (read : TermsRead layout (front ++ .mathSymbol symbol :: back))
    (block : layout.isCompact = false) (ends : lastEndsInHeredoc front = true) :
    front.getLast?.any isHeredoc = true := by
  rw [lastEndsInHeredoc_eq, Option.any_eq_true] at ends
  obtain ⟨last, found, ends⟩ := ends
  refine (Option.any_eq_true _ _).mpr ⟨last, found, read.lines block last ?_ ends⟩
  rw [List.dropLast_append_of_ne_nil (by simp)]
  exact List.mem_append_left _ (List.mem_of_getLast? found)

/-- What can be read back as a whole can be behind an operator. -/
theorem TermsRead.behind (nonempty : back ≠ [])
    (read : TermsRead layout (front ++ .mathSymbol symbol :: back)) : TermsRead layout back where
  reads term mem := read.reads term (by simp [mem])
  signs := bindsSign_back read.signs
  lines block term mem := by
    refine read.lines block term ?_
    obtain ⟨first, rest, rfl⟩ := List.exists_cons_of_ne_nil nonempty
    rw [List.dropLast_append_of_ne_nil (by simp)]
    exact List.mem_append_right _ (List.mem_cons_of_mem _ mem)

/-- The last term stands behind the operator. -/
theorem getLast?_operator (nonempty : back ≠ []) :
    (front ++ .mathSymbol symbol :: back).getLast? = back.getLast? := by
  obtain ⟨first, rest, rfl⟩ := List.exists_cons_of_ne_nil nonempty
  rw [List.getLast?_append, List.getLast?_cons_cons]
  exact Option.or_of_isSome (by simp)

end Parts

/-- No operator follows what ends an expression. -/
theorem ExpressionEnd.noOperation {multiline : Bool} {rest : Text} (h : ExpressionEnd multiline rest)
    (terms : List Node) :
    (operation inner multiline).Mismatches (overhang layout terms ++ rest) := by
  have noOperator : operator.Mismatches (skip multiline (overhang layout terms ++ rest)) := by
    -- The line break that a heredoc leaves stops an expression on one line and is skipped in
    -- others.
    unfold overhang
    split
    · cases multiline with
      | true => exact h.noOperator
      | false => exact mismatches_operator ((Text.stops_cons ..).mpr (by decide))
    · exact h.noOperator
  cases multiline with
  | true => exact Mismatches.behind (whitespace_apply _) (noOperator.bind _)
  | false => exact Mismatches.behind (inlineWhitespace_apply _) (noOperator.bind _)

/-- An expression is read back term by term, up to a text that ends it. -/
theorem operations_form {multiline : Bool} {terms : List Node} (h : AreTerms multiline terms)
    (read : TermsRead layout terms) {rest : Text} (follows : ExpressionEnd multiline rest)
    (closes : layout.isCompact = false → lastEndsInHeredoc terms = true → ClosesLine rest) :
    ∃ first others behind, terms = first ++ others.flatten
      ∧ unaryOperand inner (termsForm layout terms ++ rest) = .matched first behind
      ∧ many (operation inner multiline) behind
        = .matched others (overhang layout terms ++ rest) := by
  -- on the number of terms: fewer stand behind an operator
  induction size : terms.length using Nat.strong_induction_on generalizing terms with
  | _ count ih =>
  cases h with
  | one unary =>
    exact ⟨terms, [], _, by simp, unaryOperand_form unary read follows.1 closes,
      many_of_mismatches (follows.noOperation terms)⟩
  | @more _ front symbol back unary listed lines others =>
    have nonempty := others.ne_nil
    have fewer : back.length < count := by
      simp only [List.length_append, List.length_cons] at size
      omega
    obtain ⟨first, operations, behind, rfl, reads, more⟩ := ih _ fewer others
      (read.behind nonempty) (fun block ends => closes block (by
        rwa [lastEndsInHeredoc_eq, getLast?_operator nonempty, ← lastEndsInHeredoc_eq])) rfl
    -- The last term is behind the operator, so it decides what is left over.
    have same : overhang layout (front ++ .mathSymbol symbol :: (first ++ operations.flatten))
        = overhang layout (first ++ operations.flatten) := by
      rw [overhang, overhang, getLast?_operator nonempty]
    obtain ⟨ends, operates⟩ := @operator_behind layout _ _ _ listed lines
      (termsForm layout (first ++ operations.flatten) ++ rest)
    have before := unaryOperand_form unary read.before ends fun block heredoc => by
      have feed : lineBreak layout front = ['\n'] := by
        simp [lineBreak, block, read.lines_before block heredoc]
      rw [feed]
      exact closesLine_feed _
    have operation := many_of_matched
      (operation_matched_iff.mpr ⟨symbol, _, first, operates, ?_, rfl⟩) ?_ more
    · refine ⟨front, (.mathSymbol symbol :: first) :: operations, _, by simp, ?_, same ▸ operation⟩
      rw [termsForm_operator unary.ne_nil nonempty unary.last others.head]
      simp only [List.append_assoc, List.cons_append] at before ⊢
      exact before
    · have starts : StartsWith startsItem (termsForm layout _) :=
        others.starts.mono fun _ => startsItem_of_startsTerm
      rw [Text.trimStart_space, starts.trimStart]
      exact reads
    · have shorter := (Descends.of_matched reads).length_le
      simp only [List.length_append, List.length_cons] at shorter ⊢
      omega

/-- The terms of an expression are read back. -/
theorem expressionTerms_form {multiline : Bool} {terms : List Node} (h : AreTerms multiline terms)
    (read : TermsRead layout terms) {rest : Text} (follows : ExpressionEnd multiline rest)
    (closes : layout.isCompact = false → lastEndsInHeredoc terms = true → ClosesLine rest) :
    expressionTerms inner multiline (termsForm layout terms ++ rest)
      = .matched terms (overhang layout terms ++ rest) := by
  obtain ⟨first, others, behind, rfl, reads, more⟩ := operations_form h read follows closes
  exact bind_matched_iff.mpr ⟨first, behind, reads, bind_matched_iff.mpr ⟨others, _, more, rfl⟩⟩

/-- A value is read back. -/
theorem value_form {terms : List Node} (h : AreTerms true terms) (read : TermsRead layout terms)
    {rest : Text} (follows : ExpressionEnd true rest)
    (closes : layout.isCompact = false → lastEndsInHeredoc terms = true → ClosesLine rest) :
    value (valueForm layout (ofTerms terms) ++ rest)
      = .matched (ofTerms terms) (overhang layout terms ++ rest) := by
  rw [value_eq, valueForm_ofTerms]
  exact map_of_matched (expressionTerms_form h read follows closes) ofTerms

end HclSyntax.Grammar
