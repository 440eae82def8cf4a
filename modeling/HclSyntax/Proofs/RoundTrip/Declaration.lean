import HclSyntax.Proofs.RoundTrip.Property
import HclSyntax.Proofs.RoundTrip.TypeConstraint

/-!
# `HclSyntax.Proofs.RoundTrip.Declaration`: whole trees are read back

The remaining declarations, maps, and with them all that the grammar describes: where a tree is
`Faithful` everywhere, each of its declarations is read back (`declaration_itemReads`), and so is each
of its values (`element_reads`). The induction is the one of the predicates for trees, over all
categories at once, since values hold declarations and declarations hold values.
-/

set_option autoImplicit false

namespace HclSyntax.Grammar

open Rule Node

variable {layout : Layout}

/-! ### Comments and types -/

/-- A comment between declarations is read back. -/
theorem commentDeclaration_reads {node : Node} (h : IsComment node)
    (faithful : Faithful layout.isCompact node) : ItemReads (declaration inner) layout node := by
  intro rest follows
  obtain ⟨noLead, noOverhang, -⟩ := @IsComment.bare layout node h
  rw [noLead, noOverhang, List.nil_append, List.nil_append]
  have reads := comment_form h faithful (follows.lineEnd node)
  -- All other declarations start with a name or a keyword.
  have noName : Text.Stops startsName (valueForm layout node ++ rest) := by
    refine h.starts.stops (fun c marker => ?_) rest
    simp only [Bool.or_eq_true, beq_iff_eq] at marker
    rcases marker with rfl | rfl <;> decide
  have block := mismatches_blockName noName
  have property := mismatches_propertyName noName
  have function : (keyword functionWord).Mismatches (valueForm layout node ++ rest) := by
    refine mismatches_keyword ?_
    rintro ⟨more, same⟩
    rw [← same] at noName
    exact absurd (noName 'f' rfl) (by decide)
  -- The alternatives in their order: blocks, properties, functions, blocks with labels, properties.
  refine (orElse_of_mismatches (block.bind _) _).trans ?_
  iterate 3 refine (orElse_of_mismatches (property.bind _) _).trans ?_
  refine (orElse_of_mismatches (function.bind _) _).trans ?_
  iterate 2 refine (orElse_of_mismatches (block.bind _) _).trans ?_
  iterate 5 refine (orElse_of_mismatches (property.bind _) _).trans ?_
  exact orElse_of_matched reads _

/-- A property with a type constraint is read back. -/
theorem typed_reads {name : Name} {constraint : Node} (isName : IsName name) (ends : NameEnds name)
    (isType : IsType constraint) (reads : TypeReads layout constraint) :
    ItemReads (declaration inner) layout (.property .type name constraint) := by
  intro rest follows
  have typed : typedProperty
        (name.source ++ (' ' :: '=' :: ' ' :: (valueForm layout constraint ++ rest)))
      = .matched (.property .type name constraint) rest :=
    (assignment_apply isName ends (isType.noSpace rest) _).trans
      ((bind_of_matched (reads rest (follows.stops (by decide)))).trans
        (bind_of_matched (endOfValue_of_endsValue follows.endsValue)))
  rw [property_form, isType.noOverhang, List.nil_append, declaration,
    orElse_of_mismatches (mismatches_namedBlock_assignment isName ends _)]
  exact orElse_of_matched typed _

/-! ### Sequences of declarations -/

/-- What the rule for sequences of declarations has to do. -/
theorem declarationSequence_reads {declarations : List Node}
    (inside : ∀ node ∈ declarations, IsDeclaration node)
    (reads : ∀ node ∈ declarations, ItemReads (declaration inner) layout node) :
    SequenceReads layout (declaration inner) whitespace (oneOf [',', ';']) declarations where
  itemDescends := inferInstance
  gapDescends := inferInstanceAs (Descends whitespace)
  commaDescends := inferInstanceAs (Descends (oneOf [',', ';']))
  shape := inside
  reads := reads
  commaReads node _ rest := by
    refine bind_matched_iff.mpr ⟨(), ',' :: rest, ?_, oneOf_matched_iff.mpr ⟨rfl, by decide⟩⟩
    rw [whitespace_apply, Text.trimStart_append (allSpace_declarationOverhang node),
      Text.trimStart_cons (by decide)]
  noComma text h := Mismatches.behind (whitespace_apply text) (mismatches_oneOf_iff.mpr h)
  ends text stops := mismatches_declaration stops inner

/-! ### Maps -/

/-- A block starts with its name and a space, behind the word `dynamic` or without it. -/
theorem source_space (header : BlockHeader) (more : Text) :
    ∃ tail, header.source ++ ' ' :: more
      = dynamicMark header.isDynamic ++ (header.name.source ++ ' ' :: tail) := by
  obtain ⟨tail, labels⟩ : ∃ tail, BlockHeader.source.labelSource header.label
      ++ (BlockHeader.source.labelSource header.typeLabel ++ ' ' :: more) = ' ' :: tail := by
    cases header.label <;> cases header.typeLabel <;> exact ⟨_, rfl⟩
  exact ⟨tail, by rw [source_body, labels]⟩

/-- The declarations that are read as the start of a for expression, behind the brace of a map. -/
theorem startsFor_of_shape {node : Node} (h : IsDeclaration node) {rest tail : Text} {c : Char}
    (shape : node.lead ++ valueForm layout node ++ rest = forWord ++ c :: tail)
    (space : isWhitespace c = true) : node.startsFor = true := by
  have named {name : Name} {more : Text} (isName : IsName name)
      (same : name.source ++ ' ' :: more = forWord ++ c :: tail) : name = .bare forWord :=
    isName.eq_bare (by decide) (by decide) same space
  -- A declaration is printed with its name first, and the word behind it ends at the white space.
  cases h with
  | comment comment =>
    obtain ⟨d, form, starts, marker⟩ : StartsWith _ (valueForm layout node) := comment.starts
    rw [(@IsComment.bare layout node comment).1, starts] at shape
    obtain ⟨rfl, -⟩ := List.cons.inj shape
    exact absurd marker (by decide)
  | @block header declarations isHeader =>
    obtain ⟨more, starts⟩ := source_space header (valueForm layout (.block header declarations) ++ rest)
    rw [lead, List.append_assoc, List.append_assoc, List.singleton_append, starts] at shape
    cases isDynamic : header.isDynamic with
    | true =>
      rw [isDynamic] at shape
      exact absurd (List.cons.inj shape).1 (by decide)
    | false =>
      rw [isDynamic] at shape
      simp [startsFor, isDynamic, named isHeader.name shape]
  | @property name terms isName areTerms =>
    obtain ⟨kind, value, same, -⟩ := areTerms.propertyOfTerms_eq name
    rw [same] at shape ⊢
    simp only [lead, List.append_assoc, List.cons_append] at shape
    simp [startsFor, named isName shape]
  | @typed name constraint isName =>
    simp only [lead, List.append_assoc, List.cons_append] at shape
    simp [startsFor, named isName shape]

/-- Inside a map no for expression starts. -/
theorem mismatches_forKeyword_declarations {entry : Node} {others : List Node} {front : Text}
    (inside : ∀ node ∈ entry :: others, IsDeclaration node) (hfront : Text.AllSpace front)
    (faithful : entry.startsFor = false) (tail : Text) :
    forKeyword.Mismatches
      (front ++ (sequenceForm layout (forms layout (entry :: others)) ++ tail)) := by
  rcases answers forKeyword
    (front ++ (sequenceForm layout (forms layout (entry :: others)) ++ tail)) with
    mismatch | ⟨_, _, found⟩
  · exact mismatch
  obtain ⟨word, c, behind, rfl, space⟩ := forKeyword_matched_iff.mp found
  rw [Text.trimStart_append hfront] at word
  have isDeclaration := inside entry (by simp)
  -- The word would be at the front of the first declaration, behind its margin.
  obtain ⟨more, shape⟩ : ∃ more, sequenceForm layout (forms layout (entry :: others)) ++ tail
      = layout.margin ++ (entry.lead ++ valueForm layout entry ++ more) := by
    have series : sequenceForm layout (forms layout (entry :: others))
        = (sequenceSeries layout (declaration inner) whitespace (oneOf [',', ';'])).text
          (entry :: others) :=
      sequenceForm_eq_text (fun node mem => (inside node mem).margin) rfl rfl rfl
    obtain ⟨more, shape⟩ := Series.text_cons
      (sequenceSeries layout (declaration inner) whitespace (oneOf [',', ';'])) entry others
    exact ⟨more ++ tail, by rw [series, shape]; simp [sequenceSeries]⟩
  have starts : StartsWith startsItem (entry.lead ++ valueForm layout entry) :=
    isDeclaration.starts.mono fun _ => startsItem_of_startsDeclaration
  rw [shape, Text.trimStart_append (allSpace_margin layout), starts.trimStart] at word
  have read := startsFor_of_shape isDeclaration word space
  simp [read] at faithful

/-- A map is read back. -/
theorem map_reads {entries : List Node} (inside : ∀ entry ∈ entries, IsDeclaration entry)
    (reads : ∀ entry ∈ entries, ItemReads (declaration inner) layout.nested entry)
    (faithful : entries.head?.any startsFor = false) : OperandReads layout (.map entries) := by
  intro rest _ _
  obtain ⟨content, left, shape, allSpace, taken⟩ := (declarationSequence_reads inside reads).body rest
  -- A for expression has the same brace, and is tried before a map.
  have noFor : forKeyword.Mismatches content := by
    cases entries with
    | nil =>
      obtain rfl : '}' :: rest = content := (List.cons.inj shape).2
      exact mismatches_forKeyword (by rw [Text.trimStart_cons (by decide)]; simp)
    | cons entry others =>
      rw [bodyForm_eq (by simp [forms_cons]), List.cons_append, List.append_assoc,
        List.append_assoc] at shape
      rw [← (List.cons.inj shape).2]
      exact mismatches_forKeyword_declarations inside allSpace_openingBreak
        (by simpa using faithful) _
  have closes : Text.trimStart (left ++ '}' :: rest) = '}' :: rest :=
    trimStart_bracket allSpace (by decide)
  have takes : map inner ('{' :: content) = .matched (.map entries) rest :=
    bind_matched_iff.mpr ⟨_, _, char_cons '{' content, bind_matched_iff.mpr ⟨(), content,
      notFollowedBy_matched_iff.mpr ⟨noFor, rfl⟩, bind_matched_iff.mpr ⟨entries, _,
        (declarations_series layout.nested content).trans taken,
        bind_matched_iff.mpr ⟨(), rest, closing_matched_iff.mpr closes, rfl⟩⟩⟩⟩
  have letters : Text.Stops isAlphabetic ('{' :: content) := (Text.stops_cons ..).mpr (by decide)
  have noLoop : (do return .forLoop (← forObject) : Rule Node).Mismatches ('{' :: content) :=
    Mismatches.bind (Mismatches.behind (char_cons '{' content) (noFor.bind _)) _
  rw [valueForm_map, shape, overhang_of_notHeredoc rfl, List.nil_append, operand,
    orElse_of_mismatches (mismatches_functionCall (mismatches_callStart letters)),
    orElse_of_mismatches (mismatches_parenthesized (by simp)), orElse_of_mismatches noLoop,
    orElse_of_mismatches (mismatches_forList (by simp)),
    orElse_of_mismatches (mismatches_list (by simp))]
  exact orElse_of_matched takes _

/-! ### All trees -/

section Everywhere

variable {compact : Bool}

/-- What holds everywhere in a node holds everywhere in its terms. -/
theorem everywhere_of_mem_terms {holds : Node → Prop} {node term : Node}
    (h : node.Everywhere holds) (mem : term ∈ node.terms) : term.Everywhere holds := by
  cases node with
  | unquotedExpression terms => exact h.of_mem_inside mem
  | _ =>
    obtain rfl := List.mem_singleton.mp mem
    exact h

/-- The terms of a faithful value can be read back when its operands can. -/
theorem termsRead_of_faithful {node : Node} (faithful : Faithful layout.isCompact node)
    (reads : ∀ term ∈ node.terms, IsOperand term → OperandReads layout term) :
    TermsRead layout node.terms := by
  cases node with
  | unquotedExpression terms => exact ⟨reads, faithful.1, faithful.2⟩
  | _ => exact ⟨reads, by simp [terms, bindsSign], fun _ term mem => by simp [terms] at mem⟩

/-- A value in brackets is read back when its operands are. -/
theorem value_reads {terms : List Node} (h : AreTerms true terms)
    (same : layout.isCompact = compact)
    (faithful : (ofTerms terms).Everywhere (Faithful compact))
    (reads : (∀ term ∈ terms, term.Everywhere (Faithful compact)) →
      ∀ term ∈ terms, IsOperand term → OperandReads layout term) :
    ElementReads layout (ofTerms terms) := by
  have parts := h.terms_ofTerms
  have everywhere {term : Node} (mem : term ∈ (ofTerms terms).terms) :=
    everywhere_of_mem_terms faithful mem
  have here : Faithful layout.isCompact (ofTerms terms) := same ▸ faithful.here
  have read := termsRead_of_faithful here
  rw [parts] at everywhere read
  exact value_element h (read (reads fun _ => everywhere))

/-- A property with an expression as its value is read back when the operands are. -/
theorem property_itemReads {name : Name} {terms : List Node} (isName : IsName name)
    (h : AreTerms false terms) (same : layout.isCompact = compact)
    (faithful : (propertyOfTerms name terms).Everywhere (Faithful compact))
    (reads : (∀ term ∈ terms, term.Everywhere (Faithful compact)) →
      ∀ term ∈ terms, IsOperand term → OperandReads layout term) :
    ItemReads (declaration inner) layout (propertyOfTerms name terms) := by
  obtain ⟨kind, value, shape, -, parts, -⟩ := h.propertyOfTerms_eq name
  have inside : value.Everywhere (Faithful compact) :=
    (shape ▸ faithful).of_mem_inside List.mem_cons_self
  have everywhere {term : Node} (mem : term ∈ value.terms) := everywhere_of_mem_terms inside mem
  have here : Faithful layout.isCompact value := same ▸ inside.here
  have read := termsRead_of_faithful here
  rw [parts] at everywhere read
  exact property_reads isName h (read (reads fun _ => everywhere)) (same ▸ faithful.here)

/-- The layout of arguments is compact if that of the call is. -/
theorem isCompact_argumentLayout (arguments : List Node) :
    (argumentLayout layout arguments).isCompact = layout.isCompact := by
  unfold argumentLayout
  split <;> simp

/-- No accessor is an operand. -/
theorem IsAccessorText.notOperand {text : Text} (h : IsAccessorText text) :
    ¬ IsOperand (.unquotedString text) := by
  intro operand
  have apart := operand.apart.2.1
  simp [h.isAccessor] at apart

mutual

/-- An operand is read back. -/
theorem operand_reads : ∀ {node : Node}, IsOperand node → ∀ {layout : Layout},
    layout.isCompact = compact → node.Everywhere (Faithful compact) → OperandReads layout node
  | _, .call isName inside, layout, same, faithful =>
    -- What stands inside an operand is printed in another layout, so the layout is general here and
    -- only its kind is kept.
    function_reads (by simpa using isName) inside
      (fun argument mem => element_reads (inside argument mem)
        ((isCompact_argumentLayout _).trans same) (faithful.of_mem_inside mem))
      (same ▸ faithful.here)
  | _, .group inside, layout, same, faithful =>
    function_reads (by simp) inside
      (fun argument mem => element_reads (inside argument mem)
        ((isCompact_argumentLayout _).trans same) (faithful.of_mem_inside mem))
      (same ▸ faithful.here)
  | _, .loop h brackets, _, _, _ => loop_reads h brackets
  | _, .list inside, layout, same, faithful =>
    list_reads inside
      (fun element mem => element_reads (inside element mem)
        ((Layout.isCompact_nested layout).trans same) (faithful.of_mem_inside mem))
      (same ▸ faithful.here)
  | _, .map inside, layout, same, faithful =>
    map_reads inside
      (fun entry mem => declaration_itemReads (inside entry mem)
        ((Layout.isCompact_nested layout).trans same) (faithful.of_mem_inside mem))
      faithful.here
  | _, .heredoc h, _, _, _ => heredoc_reads h
  | _, .string, _, _, faithful => string_reads faithful.here
  | _, .numberOrBool h, _, _, _ => numberOrBool_reads h
  | _, .unquoted h notNumber boolean, _, _, faithful =>
    unquoted_reads h notNumber boolean faithful.here

/-- The operands among the terms are read back. -/
theorem unary_reads : ∀ {terms : List Node}, IsUnary terms → ∀ {layout : Layout},
    layout.isCompact = compact → (∀ term ∈ terms, term.Everywhere (Faithful compact)) →
    ∀ term ∈ terms, IsOperand term → OperandReads layout term
  | _, .bare operand, _, same, faithful => fun term mem _ =>
    List.mem_singleton.mp mem ▸ operand_reads operand same (faithful _ List.mem_cons_self)
  | _, .accessed operand _ accessor _, _, same, faithful => fun term mem isOperand => by
    have first := operand_reads operand same (faithful _ List.mem_cons_self)
    rcases List.mem_pair.mp mem with rfl | rfl
    · exact first
    · exact absurd isOperand accessor.notOperand
  | _, .signed _ unary, _, same, faithful => fun term mem isOperand => by
    have others := unary_reads unary same fun term mem => faithful term (List.mem_cons_of_mem _ mem)
    rcases List.mem_cons.mp mem with rfl | mem
    · cases isOperand
    · exact others term mem isOperand

/-- So are the operands of an expression. -/
theorem terms_read : ∀ {multiline : Bool} {terms : List Node}, AreTerms multiline terms →
    ∀ {layout : Layout}, layout.isCompact = compact →
    (∀ term ∈ terms, term.Everywhere (Faithful compact)) →
    ∀ term ∈ terms, IsOperand term → OperandReads layout term
  | _, _, .one unary, _, same, faithful => unary_reads unary same faithful
  | _, _, .more first _ _ others, _, same, faithful => fun term mem isOperand => by
    have before := unary_reads first same fun term mem => faithful term (by simp [mem])
    have behind := terms_read others same fun term mem => faithful term (by simp [mem])
    rcases List.mem_append.mp mem with front | back
    · exact before term front isOperand
    · rcases List.mem_cons.mp back with rfl | back
      · cases isOperand
      · exact behind term back isOperand

/-- An element of a list or call is read back. -/
theorem element_reads : ∀ {node : Node}, IsElement node → ∀ {layout : Layout},
    layout.isCompact = compact → node.Everywhere (Faithful compact) → ElementReads layout node
  | _, .comment comment, _, same, faithful => comment_element comment (same ▸ faithful.here)
  | _, .value areTerms, _, same, faithful =>
    value_reads areTerms same faithful (terms_read areTerms same)

/-- A declaration is read back. -/
theorem declaration_itemReads : ∀ {node : Node}, IsDeclaration node → ∀ {layout : Layout},
    layout.isCompact = compact → node.Everywhere (Faithful compact) →
    ItemReads (declaration inner) layout node
  | _, .comment comment, _, same, faithful =>
    commentDeclaration_reads comment (same ▸ faithful.here)
  | _, .block isHeader inside, layout, same, faithful =>
    block_reads isHeader faithful.here.1 faithful.here.2 (declarationSequence_reads inside
      fun node mem => declaration_itemReads (inside node mem)
        ((Layout.isCompact_nested layout).trans same) (faithful.of_mem_inside mem))
  | _, .property isName areTerms, _, same, faithful =>
    property_itemReads isName areTerms same faithful (terms_read areTerms same)
  | _, .typed isName isType, _, same, faithful =>
    typed_reads isName faithful.here.1 isType
      (type_reads isType same (faithful.of_mem_inside List.mem_cons_self))

end

end Everywhere

end HclSyntax.Grammar
