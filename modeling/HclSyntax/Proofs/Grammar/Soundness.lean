import HclSyntax.Proofs.Grammar.Follow
import HclSyntax.Proofs.Grammar.Induction
import HclSyntax.Proofs.Grammar.Reading
import HclSyntax.Proofs.Grammar.Repetition
import HclSyntax.Proofs.Grammar.Shape
import HclSyntax.Proofs.Rule.Yields

/-!
# `HclSyntax.Proofs.Grammar.Soundness`: every tree that is read has a shape of the grammar

What `declarations` reads are declarations in the sense of `IsDeclaration`
(`isDeclaration_of_declarations`), and what `value` reads is an element. The rules are open: each of
them is sound when the rules for what stands inside brackets are (`Sound`), and `inner_induction` ties
the knot.

Two facts need the text behind a node as well. A heredoc ends its line, so no operator follows it
there; and a point is never left behind a number.
-/

set_option autoImplicit false

namespace HclSyntax.Grammar

open Rule

/-! ### Type constraints -/

/-- The name of a primitive type is one of the words for them. -/
theorem primitiveName_yields : primitiveName.Yields (· ∈ primitiveWords) :=
  ⟨fun matched => (primitiveName_shape matched).2⟩

/-- A primitive type is one, bare or quoted. -/
theorem primitiveType_yields : primitiveType.Yields IsType := by
  apply Yields.orElse
  · exact primitiveName_yields.bind fun name listed => .pure (.primitive listed)
  · refine .behind fun _ => ?_
    refine primitiveName_yields.bind fun name listed => ?_
    exact .behind fun _ => .pure (.primitive listed)

/-- A comment is one. -/
theorem comment_yields : comment.Yields IsComment := ⟨isComment_of_matched⟩

/-- A name is one that can be read back. -/
theorem propertyName_yields : propertyName.Yields IsName := ⟨isName_of_matched⟩

section TypeConstraint

variable {inner : Rule Node} (h : inner.Yields IsType)

include h

/-- A collection type has a type inside. -/
theorem collectionType_yields (collection : CollectionType) :
    (collectionType inner collection).Yields IsType := by
  refine .behind fun _ => h.bind fun element isType => ?_
  exact .behind fun _ => .behind fun _ => .pure (.collection isType)

/-- A member of an object type is a name with a type. -/
theorem typeMember_yields : (typeMember inner).Yields IsMember := by
  refine propertyName_yields.bind fun name isName => ?_
  refine .behind fun _ => h.bind fun constraint isType => ?_
  exact .pure (.typed isName isType)

/-- An object type has members inside. -/
theorem objectType_yields : (objectType inner).Yields IsType := by
  have member : (comment <|> typeMember inner).Yields IsMember :=
    (comment_yields.mono fun _ => .comment).orElse (typeMember_yields h)
  have item : (memberItem inner).Yields IsMember :=
    .behind fun _ => member.bind fun _ isMember => .behind fun _ => .pure isMember
  refine .behind fun _ => .behind fun _ => ?_
  refine item.many.bind fun members areMembers => ?_
  exact .behind fun _ => .behind fun _ => .behind fun _ => .behind fun _ => .pure (.object areMembers)

/-- A tuple type has types inside. -/
theorem tupleType_yields : (tupleType inner).Yields IsType := by
  have item : (tupleItem inner).Yields IsType :=
    .behind fun _ => h.bind fun _ isType => .behind fun _ => .pure isType
  refine .behind fun _ => .behind fun _ => ?_
  refine item.many.bind fun elements areTypes => ?_
  exact .behind fun _ => .behind fun _ => .behind fun _ => .behind fun _ => .pure (.tuple areTypes)

/-- A type constraint has the shape of one when the types inside it have. -/
theorem typeConstraintOver_yields : (typeConstraintOver inner).Yields IsType := by
  have map := collectionType_yields h .map
  have list := collectionType_yields h .list
  have set := collectionType_yields h .set
  have object := objectType_yields h
  have tuple := tupleType_yields h
  exact map.orElse (object.orElse (list.orElse (set.orElse (tuple.orElse primitiveType_yields))))

end TypeConstraint

/-- Every type constraint that is read has the shape of one. -/
theorem typeConstraint_yields : typeConstraint.Yields IsType := by
  refine yields_iff.mpr (typeConstraint_induction
    (fun _ reply => ∀ node rest, reply = .matched node rest → IsType node)
    (fun _ _ _ h => nomatch h) fun rule _ inside => ?_)
  exact yields_iff.mp (typeConstraintOver_yields (yields_iff.mpr inside))

/-! ### Values -/

/-- What stands inside brackets has the shape the grammar describes. -/
structure Sound (inner : Inner) : Prop where
  value : inner.value.Yields IsElement
  declarations : inner.declarations.Yields fun found => ∀ node ∈ found, IsDeclaration node

/-- What is known of an operand and of the text behind it: a heredoc ends its line, and no point
follows a number. -/
structure OperandShape (node : Node) (rest : Text) : Prop where
  operand : IsOperand node
  closes : node.isHeredoc = true → ClosesLine rest
  noPoint : ∀ word, node = .numberOrBool word → rest.head? ≠ some '.'

/-- Most operands are no heredocs and no numbers, and nothing is to be known of the text behind
them. -/
theorem OperandShape.any {node : Node} (operand : IsOperand node) (noHeredoc : node.isHeredoc = false)
    (noNumber : ∀ word, node ≠ .numberOrBool word) (rest : Text) : OperandShape node rest where
  operand := operand
  closes heredoc := by simp [noHeredoc] at heredoc
  noPoint word same := absurd same (noNumber word)

section Values

variable {inner : Inner} (sound : Sound inner)

include sound

/-- What stands in brackets is values and comments. -/
theorem elements_yields (bracket : Char) (construct : Construct) :
    (elements inner bracket construct).Yields fun found => ∀ node ∈ found, IsElement node := by
  have element : (comment <|> inner.value).Yields IsElement :=
    (comment_yields.mono fun _ => .comment).orElse sound.value
  have item : (elementItem inner).Yields IsElement :=
    .behind fun _ => element.bind fun _ isElement => .behind fun _ => .pure isElement
  exact item.many.bind fun found areElements => .behind fun _ => .pure areElements

/-- A call has a name that can be read back, and values in its parentheses. -/
theorem functionCall_yields :
    (functionCall inner).Yields fun node => ∀ rest, OperandShape node rest := by
  have names : functionName.Yields IsCallName :=
    ⟨fun {text name rest} found => ⟨text, rest, found⟩⟩
  have start : callStart.Yields IsCallName := by
    refine names.bind fun name isName => ?_
    exact .behind fun _ => .behind fun _ => .pure isName
  refine start.bind fun name isName => ?_
  refine (elements_yields sound ..).bind fun arguments areElements => .pure ?_
  exact .any (.call isName areElements) rfl nofun

/-- Parentheses have values inside. -/
theorem parenthesized_yields :
    (parenthesized inner).Yields fun node => ∀ rest, OperandShape node rest := by
  refine .behind fun _ => ?_
  refine (elements_yields sound ..).bind fun arguments areElements => .pure ?_
  exact .any (.group areElements) rfl nofun

/-- A list has values inside. -/
theorem list_yields : (list inner).Yields fun node => ∃ elements, node = .list elements
    ∧ ∀ element ∈ elements, IsElement element := by
  refine .behind fun _ => .behind fun _ => ?_
  exact (elements_yields sound ..).bind fun elements areElements =>
    .pure ⟨elements, rfl, areElements⟩

/-- A map has declarations inside. -/
theorem map_yields : (map inner).Yields fun node => ∃ entries, node = .map entries
    ∧ ∀ entry ∈ entries, IsDeclaration entry := by
  refine .behind fun _ => .behind fun _ => ?_
  refine sound.declarations.bind fun entries areDeclarations => ?_
  exact .behind fun _ => .pure ⟨entries, rfl, areDeclarations⟩

end Values

/-- A for expression is a term whose parts can be read back. -/
theorem forLoop_yields {openingBracket closingBracket : Char}
    (listed : (openingBracket, closingBracket) ∈ loopBrackets) :
    (forLoop openingBracket closingBracket).Yields fun loop => IsOperand (.forLoop loop) := by
  have closes : ∀ pair ∈ loopBrackets, isClosingBracket pair.2 = true := by decide
  refine ⟨fun found => ?_⟩
  obtain ⟨h, rfl, rfl⟩ := isForLoop_of_matched (closes _ listed) found
  exact .loop h listed

/-- A heredoc is one that can be read back. -/
theorem heredoc_yields : heredoc.Yields IsHeredoc :=
  ⟨fun {text _ rest} found => ⟨text, rest, found⟩⟩

/-- A scalar is a string, or a number or boolean that no point follows. -/
theorem scalar_shape {text rest : Text} {node : Node} (h : scalar text = .matched node rest) :
    (∃ content, node = .string content)
      ∨ ∃ word, node = .numberOrBool word ∧ (IsNumber word ∨ IsBoolean word)
          ∧ rest.head? ≠ some '.' := by
  rcases orElse_matched_iff.mp h with found | ⟨-, found⟩
  · obtain ⟨content, behind, -, same⟩ := bind_matched_iff.mp found
    obtain ⟨rfl, -⟩ := pure_matched_iff.mp same
    exact .inl ⟨content, rfl⟩
  · obtain ⟨word, behind, literal, same⟩ := bind_matched_iff.mp found
    obtain ⟨rfl, rfl⟩ := pure_matched_iff.mp same
    refine .inr ⟨word, rfl, ?_⟩
    rcases orElse_matched_iff.mp literal with digits | ⟨-, letters⟩
    · refine ⟨.inl (isNumber_of_matched digits), fun point => ?_⟩
      exact absurd ((number_shape digits).2.2 '.' point) (by decide)
    · refine ⟨.inr (isBoolean_of_matched letters), fun point => ?_⟩
      exact absurd ((boolean_matched_iff.mp letters).2.2 '.' point) (by decide)

/-- A scalar is a term. -/
theorem scalar_yields : scalar.Yields IsOperand := by
  refine ⟨fun found => ?_⟩
  rcases scalar_shape found with ⟨content, rfl⟩ | ⟨word, rfl, literal, -⟩
  · exact .string
  · exact .numberOrBool literal

/-- Where no scalar was read, unquoted text is not mistaken for one. -/
theorem isOperand_of_unquotedText {source text rest : Text} (noScalar : scalar.Mismatches source)
    (h : unquotedText source = .matched text rest) : IsOperand (.unquotedString text) := by
  obtain ⟨rfl, -, -⟩ := unquotedText_shape h
  have stops := stops_of_unquotedText h
  have neither : number.Mismatches (text ++ rest) ∧ boolean.Mismatches (text ++ rest) := by
    have literal := (mismatches_orElse_iff.mp noScalar).2
    rcases mismatches_bind_iff.mp literal with literal | ⟨_, _, _, impossible⟩
    · exact mismatches_orElse_iff.mp literal
    · exact absurd impossible (not_mismatches_pure _ _)
  -- The rule for numbers did not apply to the whole source. It looks at what follows, so that there
  -- is no number in the text alone takes an argument.
  have continues : Text.Stops continuesNumber rest := by
    intro c hc
    rw [← Bool.not_eq_true]
    intro goesOn
    exact absurd (isTextChar_of_continuesNumber goesOn) (by simp [stops c hc])
  exact .unquoted ⟨_, _, h⟩ (mismatches_number_of_append neither.1 continues)
    (mismatches_boolean_of_append neither.2)

/-- Behind the marker of a heredoc no operator follows on the line. -/
theorem stops_of_closesLine {rest : Text} (h : ClosesLine rest) :
    Text.Stops startsOperator (skip false rest) := by
  change Text.Stops startsOperator (rest.dropWhile Text.isInline)
  -- Up to the end of the line there are only white space and closing brackets, so the first
  -- character that is no white space is a bracket or the line break.
  induction rest with
  | nil => simp
  | cons c rest ih =>
    by_cases feed : c = '\n'
    · subst feed
      rw [List.dropWhile_cons_of_neg (by decide)]
      exact (Text.stops_cons ..).mpr (by decide)
    · rw [ClosesLine, Text.splitLine_cons feed, List.all_cons, Bool.and_eq_true] at h
      by_cases inline : Text.isInline c = true
      · rw [List.dropWhile_cons_of_pos inline]
        exact ih h.2
      · rw [List.dropWhile_cons_of_neg inline, Text.stops_cons]
        have notSpace : isWhitespace c = false := by simpa [Text.isInline, feed] using inline
        have bracket : c ∈ [',', ')', ']', '}'] := by
          simpa [mayFollowMarker, notSpace] using h.1
        exact (by decide : ∀ c ∈ [',', ')', ']', '}'], startsOperator c = false) c bracket

section Expressions

variable {inner : Inner} (sound : Sound inner)

include sound

/-- Every operand that is read has the shape of one. -/
theorem operand_shape {text rest : Text} {node : Node}
    (h : operand inner text = .matched node rest) : OperandShape node rest := by
  have object : (do return .forLoop (← forObject) : Rule Node).Yields
      fun node => ∀ rest, OperandShape node rest :=
    (forLoop_yields (by decide)).bind fun loop shape => .pure (.any shape rfl nofun)
  have tuple : (do return .forLoop (← forList) : Rule Node).Yields
      fun node => ∀ rest, OperandShape node rest :=
    (forLoop_yields (by decide)).bind fun loop shape => .pure (.any shape rfl nofun)
  -- The alternatives in their order, of which only the last needs that one before it gave up.
  rcases orElse_matched_iff.mp h with found | ⟨-, h⟩
  · exact (functionCall_yields sound).of_matched found rest
  rcases orElse_matched_iff.mp h with found | ⟨-, h⟩
  · exact (parenthesized_yields sound).of_matched found rest
  rcases orElse_matched_iff.mp h with found | ⟨-, h⟩
  · exact object.of_matched found rest
  rcases orElse_matched_iff.mp h with found | ⟨-, h⟩
  · exact tuple.of_matched found rest
  rcases orElse_matched_iff.mp h with found | ⟨-, h⟩
  · obtain ⟨elements, rfl, inside⟩ := (list_yields sound).of_matched found
    exact .any (.list inside) rfl nofun rest
  rcases orElse_matched_iff.mp h with found | ⟨-, h⟩
  · obtain ⟨entries, rfl, inside⟩ := (map_yields sound).of_matched found
    exact .any (.map inside) rfl nofun rest
  rcases orElse_matched_iff.mp h with found | ⟨-, h⟩
  · obtain ⟨doc, behind, lines, same⟩ := bind_matched_iff.mp found
    obtain ⟨rfl, rfl⟩ := pure_matched_iff.mp same
    exact ⟨.heredoc ⟨_, _, lines⟩, fun _ => closesLine_of_heredoc lines, nofun⟩
  rcases orElse_matched_iff.mp h with found | ⟨noScalar, h⟩
  · rcases scalar_shape found with ⟨content, rfl⟩ | ⟨word, rfl, literal, noPoint⟩
    · exact .any .string rfl nofun rest
    · exact ⟨.numberOrBool literal, nofun, fun _ _ => noPoint⟩
  · obtain ⟨found, behind, plain, same⟩ := bind_matched_iff.mp h
    obtain ⟨rfl, rfl⟩ := pure_matched_iff.mp same
    exact .any (isOperand_of_unquotedText noScalar plain) rfl nofun _

/-- What is known of a term with its signs and accessors and of the text behind it. -/
structure UnaryShape (terms : List Node) (rest : Text) : Prop where
  unary : IsUnary terms
  closes : terms.getLast?.any Node.isHeredoc = true → ClosesLine rest

/-- A term that is read has the shape of one, with an accessor behind it or without. -/
theorem operandWithAccessor_shape {text rest : Text} {readings : List Reading}
    (h : ReadsOperand inner text readings rest) : UnaryShape (readings.map Reading.node) rest := by
  cases h with
  | bare found =>
    have shape := operand_shape sound found
    exact ⟨.bare shape.operand, fun heredoc => shape.closes (by simpa using heredoc)⟩
  | accessed found takes access =>
    have shape := operand_shape sound found
    obtain ⟨rfl, start, -⟩ := accessor_shape access
    refine ⟨.accessed shape.operand takes ⟨_, _, access⟩ fun word same => ?_,
      by simp [Node.isHeredoc]⟩
    -- Behind a number only an index can stand: no point was left behind it.
    rcases start with index | point
    · exact index
    · refine absurd ?_ (shape.noPoint word same)
      simp [List.head?_append, point]

/-- Every term with signs and accessors that is read has the shape of one. -/
theorem unaryOperand_shape {text rest : Text} {readings : List Reading}
    (h : ReadsUnit inner text readings rest) : UnaryShape (readings.map Reading.node) rest := by
  induction h with
  | unsigned reads => exact operandWithAccessor_shape sound reads
  | signed isSign _ _ ih =>
    obtain ⟨unary, closes⟩ := ih
    refine ⟨.signed (by simpa using isSign) unary, fun heredoc => closes ?_⟩
    rw [List.map_cons] at heredoc
    generalize List.map Reading.node _ = terms at unary heredoc ⊢
    cases unary <;> simpa using heredoc

/-- Every expression that is read has the shape of one. -/
theorem areTerms_of_reads {multiline : Bool} {text rest : Text} {readings : List Reading}
    (h : ReadsExpression inner multiline text readings rest) :
    AreTerms multiline (readings.map Reading.node) := by
  induction h with
  | last unit => exact .one (unaryOperand_shape sound unit).unary
  | more unit operates _ ih =>
    have shape := unaryOperand_shape sound unit
    rw [List.map_append, List.map_cons]
    refine .more shape.unary (operator_matched operates).2 (fun oneLine => ?_) ih
    rw [← Bool.not_eq_true]
    intro heredoc
    rw [oneLine] at operates
    exact not_mismatches_of_matched operates
      (mismatches_operator (stops_of_closesLine (shape.closes heredoc)))

/-- The terms of an expression have the order of one. -/
theorem expressionTerms_yields (multiline : Bool) :
    (expressionTerms inner multiline).Yields (AreTerms multiline) := by
  refine ⟨fun h => ?_⟩
  obtain ⟨readings, reads, rfl⟩ := reads_of_expressionTerms h
  exact areTerms_of_reads sound reads

/-- A value is what its terms make of it. -/
theorem valueOver_yields : (valueOver inner).Yields IsElement :=
  (expressionTerms_yields sound true).bind fun _ areTerms => .pure (.value areTerms)

end Expressions

/-! ### Declarations -/

/-- The name of a block can be read back, with the word `dynamic` before it or without. -/
theorem blockName_yields : blockName.Yields fun found => IsName found.2 := by
  apply Yields.orElse
  · refine .behind fun _ => .behind fun _ => ?_
    exact propertyName_yields.bind fun name isName => .pure isName
  · exact propertyName_yields.bind fun name isName => .pure isName

/-- A property with a value of some rule is what the terms of that value make of it. -/
theorem assigned_yields {kind : PropertyKind} {rule : Rule Node}
    (h : rule.Yields fun value => ∀ name, IsName name → IsDeclaration (.property kind name value)) :
    (assigned kind rule).Yields IsDeclaration := by
  refine propertyName_yields.bind fun name isName => ?_
  refine .behind fun _ => h.bind fun value isDeclaration => ?_
  exact .behind fun _ => .pure (isDeclaration name isName)

section Declarations

variable {inner : Inner} (sound : Sound inner)

include sound

/-- The body of a block has declarations inside. -/
theorem blockBody_yields :
    (blockBody inner).Yields fun found => ∀ node ∈ found, IsDeclaration node := by
  refine .behind fun _ => .behind fun _ => .body ?_
  refine sound.declarations.bind fun found areDeclarations => ?_
  exact .behind fun _ => .behind fun _ => .pure areDeclarations

/-- A block without labels has a name and declarations inside. -/
theorem namedBlock_yields : (namedBlock inner).Yields IsDeclaration := by
  refine blockName_yields.bind fun name isName => ?_
  refine (blockBody_yields sound).bind fun found inside => ?_
  exact .pure (.block ⟨isName, nofun⟩ inside)

/-- The word `function` is a name that can be read back. -/
theorem functionDeclaration_yields : (functionDeclaration inner).Yields IsDeclaration := by
  have isName : IsName (.bare "function".toList) :=
    fun _ => .bare (by decide) (by decide)
  refine .behind fun _ => .behind fun _ => .behind fun _ => ?_
  refine (blockBody_yields sound).bind fun found inside => ?_
  exact .pure (.block ⟨isName, nofun⟩ inside)

/-- A block with one label has a name and declarations inside. -/
theorem labelledBlock_yields : (labelledBlock inner).Yields IsDeclaration := by
  refine blockName_yields.bind fun name isName => ?_
  refine .behind fun _ => .behind fun _ => .behind fun label => ?_
  refine (blockBody_yields sound).bind fun found inside => ?_
  exact .pure (.block ⟨isName, nofun⟩ inside)

/-- A block with two labels has a first one. -/
theorem typedBlock_yields : (typedBlock inner).Yields IsDeclaration := by
  refine blockName_yields.bind fun name isName => ?_
  refine .behind fun _ => .behind fun first => ?_
  refine .behind fun _ => .behind fun second => ?_
  refine (blockBody_yields sound).bind fun found inside => ?_
  exact .pure (.block ⟨isName, fun _ => rfl⟩ inside)

/-- A property with any expression as its value, behind anything that is looked at in advance. -/
theorem expressionProperty_yields (ahead : Rule Unit) : (do
    let name ← propertyName
    equals
    ahead
    let terms ← expressionTerms inner false
    return propertyOfTerms name terms : Rule Node).Yields IsDeclaration := by
  refine propertyName_yields.bind fun name isName => ?_
  refine .behind fun _ => .behind fun _ => ?_
  refine (expressionTerms_yields sound false).bind fun terms areTerms => ?_
  exact .pure (.property isName areTerms)

/-- Every declaration that is read has the shape of one. -/
theorem declaration_yields : (declaration inner).Yields IsDeclaration := by
  have block := namedBlock_yields sound
  have typed : typedProperty.Yields IsDeclaration :=
    assigned_yields (typeConstraint_yields.mono fun _ value _ name => .typed name value)
  have ofCall : (functionProperty inner).Yields IsDeclaration :=
    expressionProperty_yields sound (followedBy callStart)
  have ofObject : (forObjectProperty inner).Yields IsDeclaration :=
    expressionProperty_yields sound (followedBy _)
  have function := functionDeclaration_yields sound
  have labelled := labelledBlock_yields sound
  have twoLabels := typedBlock_yields sound
  have ofScalar : scalarProperty.Yields IsDeclaration := by
    refine assigned_yields ⟨fun found name isName => ?_⟩
    have operand := scalar_yields.of_matched found
    rcases scalar_shape found with ⟨content, rfl⟩ | ⟨word, rfl, -⟩
    · exact isDeclaration_of_operand operand isName
    · exact isDeclaration_of_operand operand isName
  -- With nothing looked at in advance the rule is the plain one.
  have ofTerms : (unquotedProperty inner).Yields IsDeclaration :=
    expressionProperty_yields sound (pure ())
  have ofList : (listProperty inner).Yields IsDeclaration := by
    refine assigned_yields ((list_yields sound).mono fun value found name isName => ?_)
    obtain ⟨elements, rfl, inside⟩ := found
    exact isDeclaration_of_operand (.list inside) isName
  have ofMap : (mapProperty inner).Yields IsDeclaration := by
    refine assigned_yields ((map_yields sound).mono fun value found name isName => ?_)
    obtain ⟨entries, rfl, inside⟩ := found
    exact isDeclaration_of_operand (.map inside) isName
  have ofHeredoc : heredocProperty.Yields IsDeclaration := by
    refine propertyName_yields.bind fun name isName => ?_
    refine .behind fun _ => heredoc_yields.bind fun doc isHeredoc => ?_
    exact .pure (isDeclaration_of_operand (.heredoc isHeredoc) isName)
  have ofComment := comment_yields.mono fun _ => IsDeclaration.comment
  have ofLoop : forListProperty.Yields IsDeclaration := by
    refine assigned_yields ((forLoop_yields (by decide)).bind fun loop operand => ?_)
    exact .pure fun name isName => isDeclaration_of_operand operand isName
  exact block.orElse <| typed.orElse <| ofCall.orElse <| ofObject.orElse <| function.orElse <|
    labelled.orElse <| twoLabels.orElse <| ofScalar.orElse <| ofTerms.orElse <| ofList.orElse <|
    ofMap.orElse <| ofHeredoc.orElse <| ofComment.orElse ofLoop

/-- Declarations one behind the other have the shape of declarations. -/
theorem declarationsOver_yields :
    (declarationsOver inner).Yields fun found => ∀ node ∈ found, IsDeclaration node := by
  have item : (declarationItem inner).Yields IsDeclaration :=
    .behind fun _ => (declaration_yields sound).bind fun _ found => .behind fun _ => .pure found
  exact item.many

end Declarations

/-! ### The recursion -/

/-- What the rules inside brackets read has the shape the grammar describes. -/
theorem sound_inner : Sound inner := by
  have both := inner_induction
    (fun _ reply => ∀ node rest, reply = .matched node rest → IsElement node)
    (fun _ reply => ∀ found rest, reply = .matched found rest → ∀ node ∈ found, IsDeclaration node)
    (fun _ _ _ h => nomatch h)
    (fun _ _ _ h => by
      cases h
      simp)
    fun rules _ _ values lists text => by
      have sound : Sound rules := ⟨yields_iff.mpr values, yields_iff.mpr lists⟩
      exact ⟨yields_iff.mp (valueOver_yields sound) text,
        yields_iff.mp (declarationsOver_yields sound) text⟩
  exact ⟨yields_iff.mpr fun text => (both text).1, yields_iff.mpr fun text => (both text).2⟩

/-- Every document that is read is made of declarations. -/
theorem isDeclaration_of_declarations {text rest : Text} {found : List Node}
    (h : declarations text = .matched found rest) : ∀ node ∈ found, IsDeclaration node :=
  sound_inner.declarations.of_matched h

end HclSyntax.Grammar
