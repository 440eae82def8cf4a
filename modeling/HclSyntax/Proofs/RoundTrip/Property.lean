import HclSyntax.Proofs.RoundTrip.Block

/-!
# `HclSyntax.Proofs.RoundTrip.Property`: properties are read back

Four of the rules for properties can read a property that has an expression as its value. They agree:
a property that starts with a call or a for expression is read by the rule for expressions as well,
and where a string, number or boolean ends its line the expression is that one term
(`scalar_agrees`). The rules for blocks and types are turned down by the equals sign, by what stands
behind the first word of the value (`Unlabelled`), and by `Untyped`.
-/

set_option autoImplicit false

namespace HclSyntax.Grammar

open Rule Node

variable {layout : Layout}

/-! ### The end of a value -/

/-- What follows a value that ends its line, behind white space. -/
def EndsValue (text : Text) : Prop :=
  text = [] ∨ (∃ c ∈ ['\n', ',', ';', '}', ']', ')', '#'], text.head? = some c)
    ∨ "//".toList <+: text ∨ "/*".toList <+: text

/-- The rule for the end of a value gives up where the value goes on. -/
theorem mismatches_endOfValue_iff {text : Text} :
    endOfValue.Mismatches text ↔ ¬ EndsValue text.trimInline := by
  have wrapped {α : Type} (rule : Rule α) (text : Text) :
      (rule >>= fun _ => pure ()).Mismatches text ↔ rule.Mismatches text := by
    simp [mismatches_bind_iff, not_mismatches_pure]
  -- The look ahead skips white space on the line first, so the alternatives are about what is
  -- behind it.
  have inside : endOfValue.Mismatches text ↔ (endOfText
      <|> (do let _ ← oneOf ['\n', ',', ';', '}', ']', ')', '#'])
      <|> (do let _ ← word "//".toList)
      <|> (do let _ ← word "/*".toList)).Mismatches text.trimInline := by
    rw [endOfValue, mismatches_followedBy_iff, mismatches_bind_iff]
    simp [Mismatches]
  rw [inside, mismatches_orElse_iff, mismatches_orElse_iff, mismatches_orElse_iff, wrapped, wrapped,
    wrapped, mismatches_endOfText_iff, mismatches_oneOf_iff, mismatches_word_iff, mismatches_word_iff,
    EndsValue, not_or, not_or, not_or]
  refine and_congr Iff.rfl (and_congr ?_ Iff.rfl)
  constructor
  · rintro h ⟨c, listed, head⟩
    exact h c head listed
  · exact fun h c head listed => h ⟨c, listed, head⟩

/-- The rule for the end of a value takes nothing. -/
theorem endOfValue_of_endsValue {text : Text} (h : EndsValue text.trimInline) :
    endOfValue text = .matched () text := by
  rcases answers endOfValue text with mismatch | ⟨_, rest, matched⟩
  · exact absurd h (mismatches_endOfValue_iff.mp mismatch)
  · obtain ⟨-, rfl⟩ := followedBy_matched_iff.mp matched
    exact matched

/-- Nothing of an expression follows a value that ends its line. -/
theorem EndsValue.nothing {text : Text} (h : EndsValue text.trimInline) :
    accessor.Mismatches text ∧ operator.Mismatches text.trimInline := by
  have head {c : Char} (first : text.head? = some c) (notInline : Text.isInline c = false) :
      text.trimInline = text := by
    obtain ⟨rest, rfl⟩ := List.head?_eq_some_iff.mp first
    exact Text.trimInline_of_stops ((Text.stops_cons ..).mpr notInline)
  -- An accessor follows at once, and neither an opening bracket nor a point ends a value or is white
  -- space.
  have noAccessor {c : Char} (bracket : c = '[' ∨ c = '.') : text.head? ≠ some c := by
    intro first
    have notInline : Text.isInline c = false := by rcases bracket with rfl | rfl <;> decide
    rw [head first notInline] at h
    rcases h with rfl | ⟨d, listed, other⟩ | ⟨rest, rfl⟩ | ⟨rest, rfl⟩
    · cases first
    · obtain rfl : c = d := Option.some.inj (first.symm.trans other)
      rcases bracket with rfl | rfl <;> exact absurd listed (by decide)
    · obtain rfl : '/' = c := Option.some.inj first
      exact absurd bracket (by decide)
    · obtain rfl : '/' = c := Option.some.inj first
      exact absurd bracket (by decide)
  refine ⟨mismatches_accessor (noAccessor (.inl rfl)) (noAccessor (.inr rfl)), ?_⟩
  rcases h with nothing | ⟨c, listed, first⟩ | ⟨rest, comment⟩ | ⟨rest, comment⟩
  · rw [nothing]
    exact mismatches_operator (Text.stops_nil _)
  · obtain ⟨rest, shape⟩ := List.head?_eq_some_iff.mp first
    have apart : ∀ c ∈ ['\n', ',', ';', '}', ']', ')', '#'], startsOperator c = false := by decide
    rw [shape]
    exact mismatches_operator ((Text.stops_cons ..).mpr (apart c listed))
  · rw [← comment]
    -- A slash is an operator, but not in front of what makes it a comment.
    exact mismatches_operator_slash (by decide) rest
  · rw [← comment]
    exact mismatches_operator_slash (by decide) rest

/-- A term that ends its line is the whole expression. -/
theorem expressionTerms_of_endsValue {rules : Inner} {text rest : Text} {node : Node}
    (reads : operand rules text = .matched node rest) (ends : EndsValue rest.trimInline) :
    expressionTerms rules false text = .matched [node] rest :=
  expressionTerms_single reads (fun _ => ends.nothing.1) ends.nothing.2

/-- The end of a value ends a number or boolean. -/
theorem EndsValue.literalEnd {rest : Text} (ends : EndsValue rest.trimInline) : LiteralEnd rest := by
  have first : ∀ c ∈ rest.trimInline.head?,
      c ∈ ['\n', ',', ';', '}', ']', ')', '#', '/'] := by
    rcases ends with nothing | ⟨c, listed, head⟩ | ⟨_, comment⟩ | ⟨_, comment⟩
    · simp [nothing]
    · rintro d same
      obtain rfl : c = d := Option.some.inj (head.symm.trans same)
      exact List.mem_append_left ['/'] listed
    · simp [← comment]
    · simp [← comment]
  refine ⟨?_, fun head => absurd (first '(' head) (by decide)⟩
  intro c head
  by_cases inline : Text.isInline c = true
  · -- White space is neither a character of names nor a colon.
    rw [← Bool.not_eq_true, Bool.or_eq_true, beq_iff_eq]
    rw [Text.isInline, Bool.and_eq_true] at inline
    rintro (nameChar | rfl)
    · exact absurd inline.1 (by simp [isWhitespace_of_isNameChar nameChar])
    · exact absurd inline.1 (by decide)
  · obtain ⟨tail, rfl⟩ := List.head?_eq_some_iff.mp head
    rw [Text.trimInline_of_stops ((Text.stops_cons ..).mpr (by simpa using inline))] at first
    exact (by decide : ∀ c ∈ ['\n', ',', ';', '}', ']', ')', '#', '/'],
      (isNameChar c || c == ':') = false) c (first c rfl)

/-! ### Scalars -/

/-- A string, number or boolean. -/
def IsScalar (node : Node) : Prop :=
  (∃ content, node = .string content) ∨ ∃ text, node = .numberOrBool text

/-- What is read as a literal is a string, number or boolean. -/
theorem isScalar_of_matched {text rest : Text} {node : Node} (h : scalar text = .matched node rest) :
    IsScalar node := by
  rcases orElse_matched_iff.mp h with quoted | ⟨-, literal⟩
  · obtain ⟨content, behind, -, same⟩ := bind_matched_iff.mp quoted
    exact .inl ⟨content, (pure_matched_iff.mp same).1.symm⟩
  · obtain ⟨text, behind, -, same⟩ := bind_matched_iff.mp literal
    exact .inr ⟨text, (pure_matched_iff.mp same).1.symm⟩

/-- Brackets start no string, number or boolean. -/
theorem mismatches_scalar_mark {text : Text} (h : ∃ c ∈ text.head?, c ∈ termMarks.take 4) :
    scalar.Mismatches text := by
  obtain ⟨c, head, listed⟩ := h
  obtain ⟨rest, rfl⟩ := List.head?_eq_some_iff.mp head
  have apart : ∀ c ∈ termMarks.take 4,
      c ≠ '"' ∧ (c.isDigit || c == '-') = false ∧ isAlphabetic c = false := by decide
  obtain ⟨notQuote, notDigit, notLetter⟩ := apart c listed
  exact mismatches_scalar (by simpa using notQuote)
    (mismatches_number ((Text.stops_cons ..).mpr notDigit))
    (mismatches_boolean ((Text.stops_cons ..).mpr notLetter))

/-- A string, number or boolean that ends its line is an operand. -/
theorem operand_of_scalar {rules : Inner} {text rest : Text} {node : Node}
    (found : scalar text = .matched node rest) (ends : EndsValue rest.trimInline) :
    operand rules text = .matched node rest := by
  rcases orElse_matched_iff.mp found with quoted | ⟨-, literal⟩
  · have starts : text.head? = some '"' := by
      by_contra other
      exact not_mismatches_of_matched quoted (Mismatches.bind (mismatches_quotedString_iff.mpr other) _)
    obtain ⟨behind, rfl⟩ := List.head?_eq_some_iff.mp starts
    have noCall : callStart.Mismatches ('"' :: behind) :=
      mismatches_callStart ((Text.stops_cons ..).mpr (by decide))
    rw [operand_behind_brackets noCall (by simp [termMarks]) rules]
    exact orElse_of_matched found _
  · obtain ⟨word, behind, either, same⟩ := bind_matched_iff.mp literal
    obtain ⟨rfl, rfl⟩ := pure_matched_iff.mp same
    rcases orElse_matched_iff.mp either with digits | ⟨-, letters⟩
    · obtain ⟨rfl, -⟩ := number_shape digits
      exact number_operand (isNumber_of_matched digits) ends.literalEnd rules
    · obtain ⟨rfl, -⟩ := boolean_matched_iff.mp letters
      exact boolean_operand (isBoolean_of_matched letters) ends.literalEnd rules

/-- A string, number or boolean that ends its line is the whole expression. -/
theorem scalar_agrees {text rest : Text} {terms : List Node} (noCall : callStart.Mismatches text)
    (reads : expressionTerms inner false text = .matched terms rest) :
    scalar.Mismatches text
      ∨ ∃ node behind, scalar text = .matched node behind
        ∧ (endOfValue.Mismatches behind
          ∨ endOfValue behind = .matched () behind ∧ IsScalar node ∧ terms = [node]
            ∧ rest = behind) := by
  by_cases mark : ∃ c ∈ text.head?, c ∈ termMarks.take 4
  · exact .inl (mismatches_scalar_mark mark)
  have noMark : ∀ c ∈ text.head?, c ∉ termMarks.take 4 := fun c head listed => mark ⟨c, head, listed⟩
  -- Where no call and no bracket starts, the rule for operands tries scalars first, so it sees the
  -- same answer.
  have operands := operand_behind_brackets noCall noMark inner
  rw [orElse_apply] at operands
  cases taken : scalar text with
  | mismatch place => exact .inl ⟨place, taken⟩
  | committed place fault =>
    rw [taken] at operands
    -- A string that never ends is a fault of the expression as well, which was read.
    have unary : unaryOperand inner text = .committed place fault := by
      rw [unaryOperand_eq, orElse_apply, operandWithAccessor, bind_apply, operands]
    rw [expressionTerms, bind_apply, unary] at reads
    cases reads
  | matched node behind =>
    refine .inr ⟨node, behind, rfl, ?_⟩
    by_cases ends : EndsValue behind.trimInline
    · -- The line ends behind the scalar, so the expression has it as its only term.
      rw [expressionTerms_of_endsValue (operand_of_scalar taken ends) ends] at reads
      cases reads
      exact .inr ⟨endOfValue_of_endsValue ends, isScalar_of_matched taken, rfl, rfl⟩
    · exact .inl (mismatches_endOfValue_iff.mpr ends)

/-! ### Alternatives that agree -/

/-- The rule reads this value, unless it does not apply. -/
def Accords {α : Type} (rule : Rule α) (text : Text) (value : α) (rest : Text) : Prop :=
  rule.Mismatches text ∨ rule text = .matched value rest

/-- An alternative that is tried first makes no difference if it accords. -/
theorem Accords.orElse {α : Type} {first second : Rule α} {text rest : Text} {value : α}
    (h : Accords first text value rest) (matched : second text = .matched value rest) :
    (first <|> second) text = .matched value rest := by
  rcases h with mismatch | same
  · rw [orElse_of_mismatches mismatch, matched]
  · exact orElse_of_matched same _

/-! ### The rules in front of the value -/

section Assignment

variable {name : Name} {terms : List Node} {value rest : Text}

/-- A rule for properties goes on with the value. -/
theorem assignment_apply {α : Type} (isName : IsName name) (ends : NameEnds name)
    (noSpace : Text.Stops isWhitespace value) (next : Name → Rule α) :
    (propertyName >>= fun name => equals >>= fun _ => next name)
        (name.source ++ (' ' :: '=' :: ' ' :: value)) = next name value := by
  rw [bind_of_matched (propertyName_assignment isName ends value),
    bind_of_matched (equals_append noSpace)]

/-- The equals sign is no name. -/
theorem mismatches_label_equals (value : Text) : label.Mismatches ('=' :: ' ' :: value) :=
  mismatches_label ((Text.stops_cons ..).mpr (by decide))

/-- The name of a property may be the name of a block. -/
theorem blockName_assignment (isName : IsName name) (ends : NameEnds name) (value : Text) :
    blockName (name.source ++ (' ' :: '=' :: ' ' :: value))
      = .matched (false, name) (' ' :: '=' :: ' ' :: value) := by
  refine blockName_source isName ends fun _ => ?_
  rw [Text.trimStart_cons (by decide)]
  exact mismatches_propertyName ((Text.stops_cons ..).mpr (by decide))

/-- A property is no block without a label. -/
theorem mismatches_namedBlock_assignment (isName : IsName name) (ends : NameEnds name)
    (value : Text) :
    (namedBlock inner).Mismatches (name.source ++ (' ' :: '=' :: ' ' :: value)) := by
  refine Mismatches.behind (blockName_assignment isName ends value)
    (Mismatches.bind (mismatches_blockBody ?_) _)
  rw [Text.trimStart_space, Text.trimStart_cons (by decide)]
  simp

/-- A property is no declaration of a function, whatever its name. -/
theorem mismatches_functionDeclaration_assignment (isName : IsName name) (value : Text) :
    (functionDeclaration inner).Mismatches (name.source ++ (' ' :: '=' :: ' ' :: value)) := by
  -- The name may be the keyword itself; then it is the missing label that turns the rule down.
  by_cases function : name = .bare functionWord
  · subst function
    refine Mismatches.behind (keyword_space functionWord _)
      (Mismatches.behind (whitespace_apply _) (Mismatches.bind ?_ _))
    rw [Text.trimStart_space, Text.trimStart_cons (by decide)]
    exact mismatches_label_equals value
  · exact @mismatches_functionDeclaration name false isName (fun both => function both.2) _

/-- A property is no block with two labels. -/
theorem mismatches_typedBlock_assignment (isName : IsName name) (ends : NameEnds name)
    (value : Text) :
    (typedBlock inner).Mismatches (name.source ++ (' ' :: '=' :: ' ' :: value)) := by
  refine Mismatches.behind (blockName_assignment isName ends value)
    (Mismatches.behind (whitespace_apply _) (Mismatches.bind ?_ _))
  rw [Text.trimStart_space, Text.trimStart_cons (by decide)]
  exact mismatches_label_equals value

/-- A property is a block with one label only where its value is that label and the body. -/
theorem mismatches_labelledBlock_assignment (isName : IsName name) (ends : NameEnds name)
    (noSpace : Text.Stops isWhitespace value)
    (unlabelled : (label >>= fun _ => blockBody inner).Mismatches value) :
    (labelledBlock inner).Mismatches (name.source ++ (' ' :: '=' :: ' ' :: value)) := by
  refine Mismatches.behind (blockName_assignment isName ends value) (Mismatches.behind
    (optional_of_matched (equals_append noSpace)) (Mismatches.behind (whitespace_apply _) ?_))
  rw [Text.trimStart_of_stops noSpace]
  -- This rule skips the equals sign, so only the value can turn it down.
  rcases mismatches_bind_iff.mp unlabelled with noLabel | ⟨first, behind, found, noBody⟩
  · exact noLabel.bind _
  · exact Mismatches.behind found (noBody.bind _)

/-- A property has a type constraint as its value only where one ends the value. -/
theorem mismatches_typedProperty_assignment (isName : IsName name) (ends : NameEnds name)
    (noSpace : Text.Stops isWhitespace value)
    (untyped : (typeConstraint >>= fun _ => endOfValue).Mismatches value) :
    typedProperty.Mismatches (name.source ++ (' ' :: '=' :: ' ' :: value)) := by
  unfold Mismatches
  rw [typedProperty, assigned, assignment_apply isName ends noSpace]
  rcases mismatches_bind_iff.mp untyped with noType | ⟨constraint, behind, found, noEnd⟩
  · exact noType.bind _
  · exact Mismatches.behind found (noEnd.bind _)

/-- A rule for properties that looks ahead before it reads an expression. -/
theorem lookahead_accords {α : Type} (isName : IsName name) (ends : NameEnds name)
    (noSpace : Text.Stops isWhitespace value) (ahead : Rule α) [Tentative ahead]
    (reads : expressionTerms inner false value = .matched terms rest) :
    Accords (do
      let name ← propertyName
      equals
      followedBy ahead
      let terms ← expressionTerms inner false
      return propertyOfTerms name terms)
      (name.source ++ (' ' :: '=' :: ' ' :: value)) (propertyOfTerms name terms) rest := by
  unfold Accords Mismatches
  rw [assignment_apply isName ends noSpace]
  rcases answers (followedBy ahead) value with mismatch | ⟨_, behind, applies⟩
  · exact .inl (mismatch.bind _)
  · obtain ⟨-, rfl⟩ := followedBy_matched_iff.mp applies
    exact .inr ((bind_of_matched applies).trans (map_of_matched reads (propertyOfTerms name)))

/-- The rule for strings, numbers and booleans. -/
theorem scalarProperty_accords (isName : IsName name) (ends : NameEnds name)
    (noSpace : Text.Stops isWhitespace value) (noCall : callStart.Mismatches value)
    (reads : expressionTerms inner false value = .matched terms rest) :
    Accords scalarProperty (name.source ++ (' ' :: '=' :: ' ' :: value))
      (propertyOfTerms name terms) rest := by
  unfold Accords Mismatches
  rw [scalarProperty, assigned, assignment_apply isName ends noSpace]
  rcases scalar_agrees noCall reads with
    mismatch | ⟨node, behind, found, noEnd | ⟨atEnd, isScalar, rfl, rfl⟩⟩
  · exact .inl (mismatch.bind _)
  · exact .inl (Mismatches.behind found (noEnd.bind _))
  · have same : Node.property .string name node = propertyOfTerms name [node] := by
      rcases isScalar with ⟨content, rfl⟩ | ⟨literal, rfl⟩ <;> rfl
    exact .inr ((bind_of_matched found).trans ((bind_of_matched atEnd).trans (same ▸ rfl)))

/-- A property with an expression as its value is read as one, whichever rule reads it. -/
theorem declaration_assignment (isName : IsName name) (ends : NameEnds name)
    (noSpace : Text.Stops isWhitespace value)
    (untyped : (typeConstraint >>= fun _ => endOfValue).Mismatches value)
    (unlabelled : (label >>= fun _ => blockBody inner).Mismatches value)
    (reads : expressionTerms inner false value = .matched terms rest) :
    declaration inner (name.source ++ (' ' :: '=' :: ' ' :: value))
      = .matched (propertyOfTerms name terms) rest := by
  have call := lookahead_accords isName ends noSpace callStart reads
  have loop := lookahead_accords isName ends noSpace (do let _ ← char '{'; forKeyword) reads
  have whole : unquotedProperty inner (name.source ++ (' ' :: '=' :: ' ' :: value))
      = .matched (propertyOfTerms name terms) rest :=
    (assignment_apply isName ends noSpace _).trans (map_of_matched reads (propertyOfTerms name))
  rw [declaration,
    orElse_of_mismatches (mismatches_namedBlock_assignment isName ends value),
    orElse_of_mismatches (mismatches_typedProperty_assignment isName ends noSpace untyped)]
  -- Where a call starts, the rule for calls reads the property. Where none does, the rule for scalars
  -- may read it, and agrees.
  rcases answers callStart value with noCall | ⟨_, _, starts⟩
  · refine call.orElse (loop.orElse ?_)
    rw [orElse_of_mismatches (mismatches_functionDeclaration_assignment isName value),
      orElse_of_mismatches (mismatches_labelledBlock_assignment isName ends noSpace unlabelled),
      orElse_of_mismatches (mismatches_typedBlock_assignment isName ends value)]
    exact (scalarProperty_accords isName ends noSpace noCall reads).orElse
      (orElse_of_matched whole _)
  · have applies : followedBy callStart value = .matched () value :=
      followedBy_matched_iff.mpr ⟨⟨_, _, starts⟩, rfl⟩
    exact orElse_of_matched ((assignment_apply isName ends noSpace _).trans
      ((bind_of_matched applies).trans (map_of_matched reads (propertyOfTerms name)))) _

end Assignment

/-! ### Properties -/

/-- A declaration of a sequence ends an expression on its line. -/
theorem DeclarationEnd.expressionEnd {rest : Text} (h : DeclarationEnd layout rest) :
    ExpressionEnd false rest := by
  have same : Text.trimInline rest = rest := Text.trimInline_of_stops (h.stops (by decide))
  have apart : rest.head? ≠ some '(' := fun head => by
    have outside := h.ends '(' head
    exact absurd outside (by decide)
  refine ⟨⟨h.stops (by decide), same.symm ▸ apart⟩, ?_⟩
  change Text.Stops startsOperator (Text.trimInline rest)
  rw [same]
  exact h.stops (by decide)

/-- The end of a declaration ends its value. -/
theorem DeclarationEnd.endsValue {rest : Text} (h : DeclarationEnd layout rest) :
    EndsValue rest.trimInline := by
  have same : Text.trimInline rest = rest := Text.trimInline_of_stops (h.stops (by decide))
  rw [same]
  cases rest with
  | nil => exact .inl rfl
  | cons c rest =>
    have outside := h.ends c rfl
    have listed : c ∈ declarationEnds := by simpa using outside
    exact .inr (.inl ⟨c, (by decide : ∀ c ∈ declarationEnds,
      c ∈ ['\n', ',', ';', '}', ']', ')', '#']) c listed, rfl⟩)

/-- A property with an expression as its value is read back. -/
theorem property_reads {name : Name} {terms : List Node} (isName : IsName name)
    (areTerms : AreTerms false terms) (read : TermsRead layout terms)
    (faithful : Faithful layout.isCompact (propertyOfTerms name terms)) :
    ItemReads (declaration inner) layout (propertyOfTerms name terms) := by
  intro rest follows
  obtain ⟨kind, value, shape, notType, same, form⟩ := areTerms.propertyOfTerms_eq name
  rw [shape] at faithful
  obtain ⟨ends, told⟩ := faithful
  obtain ⟨untyped, unlabelled⟩ := told notType
  have noSpace : Text.Stops isWhitespace (termsForm layout terms ++ rest) :=
    areTerms.starts.stops (fun _ starts =>
      isWhitespace_of_startsItem (startsItem_of_startsTerm starts)) rest
  have reads := expressionTerms_form areTerms read follows.expressionEnd
    (follows.lineEnd (.unquotedExpression terms)).heredoc
  rw [shape, property_form, form, same, ← shape]
  exact declaration_assignment isName ends noSpace (form layout ▸ untyped layout rfl rest follows)
    (form layout ▸ unlabelled layout rfl rest follows) reads

end HclSyntax.Grammar
