import HclSyntax.Proofs.Node.Frame
import HclSyntax.Proofs.RoundTrip.Faithful

/-!
# `HclSyntax.Proofs.RoundTrip.Settled`: the tree that a printed form tells

Two trees may have the same printed form. `Node.settled` picks the one that is read from it: a minus
sign in front of a number belongs to the number, a text without quotes that is a boolean is one, a
value that is printed like a type constraint is that type, a block with a label that has the name
`dynamic` is a dynamic block, and on one line a comment is a bracketed one.

A tree and its settled tree print the same (`settled_prints`, `Document.render_settled`). The printer
looks at a few more things of a node than its printed form, so the proof is about `PrintsAs`: two
nodes that print the same, and that the printer treats alike. It replaces the nodes inside a node one
after the other, since what is printed around a place does not change with what stands in it.
-/

set_option autoImplicit false

namespace HclSyntax

open Grammar

namespace Node

/-! ### Terms -/

/-- A number with a minus sign in front of it. -/
def negated : Node → Node
  | .numberOrBool text => .numberOrBool ('-' :: text)
  | node => node

/-- Terms where every minus sign that stands in front of a number without one belongs to the number.
`first` says that a sign may stand at the start of the terms. -/
def joinSigns : Bool → List Node → List Node
  | first, term :: next :: rest =>
    if first && term.isMinus && next.isUnsigned then next.negated :: joinSigns false rest
    else term :: joinSigns term.isSymbol (next :: rest)
  | _, terms => terms

/-- An expression of some terms, or the number that is left of them. -/
def ofJoined : List Node → Node
  | [.numberOrBool text] => .numberOrBool text
  | terms => .unquotedExpression terms

end Node

/-- A header whose name is the word `dynamic` in front of a label: the label is the name of a dynamic
block. -/
def BlockHeader.settled (header : BlockHeader) : BlockHeader :=
  match header.becomesDynamic, header.label with
  | true, some label => ⟨⟨label, true⟩, true, header.typeLabel, none⟩
  | _, _ => header

/-- The collection type that is written with this word. -/
def CollectionType.ofWord? (word : Text) : Option CollectionType :=
  [.map, .list, .set].find? (·.word == word)

namespace Node

/-! ### Types -/

/-- Whether a node may stand in an object type. -/
def isMember : Node → Bool
  | .comment _ _ => true
  | .multilineComment _ => true
  | .property .type _ _ => true
  | _ => false

mutual

/-- The type constraint that a value is printed as. The block layout prints the elements of a list on
lines of their own, and those of a tuple type on one. -/
def asType? (compact : Bool) : Node → Option Node
  | .unquotedString text =>
    if text ∈ primitiveWords then some (.primitiveType text false) else none
  | .string content => if content ∈ primitiveWords then some (.primitiveType content true) else none
  | .function (some name) [.map entries] =>
    if name = "object".toList ∧ entries.all isMember then some (.objectType entries) else none
  | .function (some name) [.list elements] =>
    if name = "tuple".toList ∧ (compact || elements.isEmpty) then
      (asTypes? compact elements).map .tupleType
    else none
  | .function (some name) [argument] =>
    match CollectionType.ofWord? name with
    | some collection => (asType? compact argument).map (.collectionType collection)
    | none => none
  | _ => none

/-- The type constraints that values are printed as. -/
def asTypes? (compact : Bool) : List Node → Option (List Node)
  | [] => some []
  | node :: rest =>
    match asType? compact node, asTypes? compact rest with
    | some type, some types => some (type :: types)
    | _, _ => none

end

mutual

/-- A value is printed as a type constraint. -/
inductive CastsTo (compact : Bool) : Node → Node → Prop
  | bare {text : Text} (listed : text ∈ primitiveWords) :
    CastsTo compact (.unquotedString text) (.primitiveType text false)
  | quoted {content : Text} (listed : content ∈ primitiveWords) :
    CastsTo compact (.string content) (.primitiveType content true)
  | collection {collection : CollectionType} {argument type : Node}
    (inside : CastsTo compact argument type) :
    CastsTo compact (.function (some collection.word) [argument]) (.collectionType collection type)
  | object {entries : List Node} (members : ∀ entry ∈ entries, isMember entry = true) :
    CastsTo compact (.function (some "object".toList) [.map entries]) (.objectType entries)
  | tuple {elements types : List Node} (oneLine : compact = true ∨ elements = [])
    (inside : CastAll compact elements types) :
    CastsTo compact (.function (some "tuple".toList) [.list elements]) (.tupleType types)

/-- Values are printed as type constraints. -/
inductive CastAll (compact : Bool) : List Node → List Node → Prop
  | nil : CastAll compact [] []
  | cons {node type : Node} {nodes types : List Node} (first : CastsTo compact node type)
    (others : CastAll compact nodes types) : CastAll compact (node :: nodes) (type :: types)

end

/-- The word of a collection is its own. -/
theorem CollectionType.ofWord?_eq_some {word : Text} {collection : CollectionType}
    (h : CollectionType.ofWord? word = some collection) : word = collection.word := by
  have found := List.find?_some h
  exact (beq_iff_eq.mp found).symm

mutual

/-- What is taken for a type prints as one. -/
theorem castsTo_of_asType? {compact : Bool} {node type : Node}
    (h : asType? compact node = some type) : CastsTo compact node type := by
  unfold asType? at h
  split at h
  · obtain ⟨listed, rfl⟩ : _ ∧ _ := by simpa using h
    exact .bare listed
  · obtain ⟨listed, rfl⟩ : _ ∧ _ := by simpa using h
    exact .quoted listed
  · obtain ⟨⟨rfl, members⟩, rfl⟩ : _ ∧ _ := by simpa using h
    exact .object (by simpa using members)
  · split at h
    · next word =>
      obtain ⟨types, found, rfl⟩ := Option.map_eq_some_iff.mp h
      obtain ⟨rfl, oneLine⟩ := word
      exact .tuple (by simpa using oneLine) (castAll_of_asTypes? found)
    · cases h
  · split at h
    · next collection found =>
      obtain ⟨inside, found', rfl⟩ := Option.map_eq_some_iff.mp h
      exact CollectionType.ofWord?_eq_some found ▸ .collection (castsTo_of_asType? found')
    · cases h
  · cases h
termination_by sizeOf node

/-- The same for several values. -/
theorem castAll_of_asTypes? {compact : Bool} {nodes types : List Node}
    (h : asTypes? compact nodes = some types) : CastAll compact nodes types := by
  unfold asTypes? at h
  split at h
  · obtain rfl : types = [] := by simpa using h.symm
    exact .nil
  · split at h
    · next found others =>
      obtain rfl := Option.some.inj h
      exact .cons (castsTo_of_asType? found) (castAll_of_asTypes? others)
    · cases h
termination_by sizeOf nodes

end

/-- The type constraint that some terms are printed as. -/
def termsAsType? (compact : Bool) : List Node → Option Node
  | [term] => asType? compact term
  | _ => none

/-- A property with some terms as its value, or with the type that they are printed as. -/
def settledProperty (compact : Bool) (name : Name) (terms : List Node) : Node :=
  match termsAsType? compact terms with
  | some type => .property .type name type
  | none => propertyOfTerms name terms

/-! ### Trees -/

mutual

/-- The tree that is read from the printed form of a node, where it is read at all. -/
def settled (compact : Bool) : Node → Node
  | .root declarations => .root (settledAll compact declarations)
  | .block header declarations => .block header.settled (settledAll compact declarations)
  | .comment style text =>
    if compact ∧ ¬ closingMarker <:+: text then .multilineComment text else .comment style text
  | .unquotedString text => if IsBoolean text then .numberOrBool text else .unquotedString text
  | .unquotedExpression terms => ofJoined (joinSigns true (settledAll compact terms))
  | .list elements => .list (settledAll compact elements)
  | .map entries => .map (settledAll compact entries)
  | .function name arguments => .function name (settledAll compact arguments)
  | .objectType members => .objectType (settledAll compact members)
  | .collectionType collection element => .collectionType collection (settled compact element)
  | .tupleType elements => .tupleType (settledAll compact elements)
  | .property kind name value =>
    if kind = .type then .property .type name (settled compact value)
    else settledProperty compact name (settled compact value).terms
  | node => node

/-- The trees that are read for some nodes. -/
def settledAll (compact : Bool) : List Node → List Node
  | [] => []
  | node :: rest => settled compact node :: settledAll compact rest

end

end Node

/-- The document that is read from the printed form of a document, where it is read at all. -/
def Document.settled (compact : Bool) (document : Document) : Document :=
  ⟨Node.settledAll compact document.declarations⟩

namespace Node

/-! ### Printing the same -/

section Alike

variable {node other third : Node}

/-- A node is treated like itself. -/
theorem Alike.refl (node : Node) : Alike node node :=
  ⟨rfl, rfl, rfl, rfl, rfl, fun _ => rfl⟩

/-- Nodes that are treated like the same one are treated alike. -/
theorem Alike.trans (h : Alike node other) (h' : Alike other third) : Alike node third where
  comment := h.comment.trans h'.comment
  heredoc := h.heredoc.trans h'.heredoc
  symbol := h.symbol.trans h'.symbol
  accessor := h.accessor.trans h'.accessor
  lead := h.lead.trans h'.lead
  margin layout := (h.margin layout).trans (h'.margin layout)

end Alike

/-- A node prints as another one in layouts of one kind, and the printer treats the two alike. -/
structure PrintsAs (compact : Bool) (node other : Node) : Prop extends Alike node other where
  form : ∀ layout : Layout, layout.isCompact = compact →
    valueForm layout node = valueForm layout other

section PrintsAs

variable {compact : Bool} {node other third : Node}

/-- A node prints as itself. -/
theorem PrintsAs.refl (node : Node) : PrintsAs compact node node :=
  ⟨.refl node, fun _ _ => rfl⟩

/-- Nodes may be replaced one after the other. -/
theorem PrintsAs.trans (h : PrintsAs compact node other) (h' : PrintsAs compact other third) :
    PrintsAs compact node third :=
  ⟨h.toAlike.trans h'.toAlike, fun layout same => (h.form layout same).trans (h'.form layout same)⟩

/-- What is printed around a place does not change with what stands in it. -/
theorem PrintsAs.fill (h : PrintsAs compact node other) (frame : Frame) :
    PrintsAs compact (frame.fill node) (frame.fill other) := by
  refine ⟨frame.alike_fill node other, fun layout same => ?_⟩
  obtain ⟨ahead, around⟩ := frame.valueForm_fill layout node
  rw [around node (.refl node), around other h.toAlike,
    h.form _ ((frame.isCompact_layoutInside layout node).trans same)]

end PrintsAs

/-! ### Terms print the same -/

section Terms

variable {layout : Layout}

/-- The test for a minus sign finds that symbol only. -/
theorem eq_minus {node : Node} (h : node.isMinus = true) : node = .mathSymbol ['-'] := by
  cases node with
  | mathSymbol text => exact congrArg mathSymbol (beq_iff_eq.mp h)
  | _ => cases h

/-- The test for a number without a sign finds such numbers only. -/
theorem eq_number {node : Node} (h : node.isUnsigned = true) :
    ∃ text, node = .numberOrBool text ∧ IsNumber text ∧ text.head? ≠ some '-' := by
  cases node with
  | numberOrBool text => exact ⟨text, rfl, by simpa [isUnsigned] using h⟩
  | _ => cases h

/-- A sign prints in front of its number whether it is a term or not. -/
theorem joinTerms_joinSigns {first : Bool} {before : Option Node} {previous : Node}
    (symbol : previous.isSymbol = first) (terms : List Node) :
    joinTerms layout before previous (forms layout (joinSigns first terms))
      = joinTerms layout before previous (forms layout terms) := by
  fun_induction joinSigns first terms generalizing before previous with
  | case1 first term next rest binds ih =>
    simp only [Bool.and_eq_true] at binds
    obtain ⟨⟨rfl, minus⟩, unsigned⟩ := binds
    obtain rfl := eq_minus minus
    obtain ⟨text, rfl, -⟩ := eq_number unsigned
    have symbols : (some previous).all isSymbol = true := symbol
    -- A sign is printed right in front of its number, as the number with the sign is.
    have noGap : gap layout (some previous) (.mathSymbol ['-']) (.numberOrBool text) = [] :=
      gap_nil rfl (by rw [symbols]; rfl)
    have sameGap : gap layout before previous (.numberOrBool ('-' :: text))
        = gap layout before previous (.mathSymbol ['-']) := rfl
    rw [negated, joinTerms_cons, ih rfl, joinTerms_cons, joinTerms_cons, noGap, sameGap,
      @joinTerms_congr layout (some (.mathSymbol ['-'])) (some previous) (.numberOrBool text)
        (.numberOrBool ('-' :: text)) symbols.symm rfl rfl]
    simp [valueForm_numberOrBool, valueForm_mathSymbol]
  | case2 first term next rest binds ih =>
    rw [joinTerms_cons, ih rfl, ← joinTerms_cons]
  | case3 => rfl

/-- Numbers and their signs print the same apart and together. -/
theorem termsForm_joinSigns (terms : List Node) :
    termsForm layout (joinSigns true terms) = termsForm layout terms := by
  match terms with
  | [] => rfl
  | [term] => rfl
  | term :: next :: rest =>
    rw [joinSigns]
    split
    · next binds =>
      simp only [Bool.and_eq_true] at binds
      obtain ⟨⟨-, minus⟩, unsigned⟩ := binds
      obtain rfl := eq_minus minus
      obtain ⟨text, rfl, -⟩ := eq_number unsigned
      rw [termsForm_sign (List.cons_ne_nil _ _), negated, termsForm_cons,
        @joinTerms_joinSigns layout false none _ rfl, termsForm_cons,
        @joinTerms_congr layout none none (.numberOrBool ('-' :: text)) (.numberOrBool text) rfl rfl rfl]
      rfl
    · rw [termsForm_cons, joinTerms_joinSigns rfl, ← termsForm_cons]

/-- An expression that became a number prints as one. -/
theorem valueForm_ofJoined (terms : List Node) :
    valueForm layout (ofJoined terms) = termsForm layout terms := by
  unfold ofJoined
  split
  · exact (termsForm_singleton _).symm
  · rfl

/-- The printed form of a node is that of its terms. -/
theorem termsForm_terms (node : Node) : termsForm layout node.terms = valueForm layout node := by
  cases node with
  | unquotedExpression => rfl
  | _ => exact termsForm_singleton _

end Terms

/-! ### Types print the same -/

/-- The elements of a compact list have commas between them, where none is a comment. -/
theorem join_withCommas_compact {elements : List Node}
    (noComment : ∀ element ∈ elements, element.isComment = false) :
    Text.join [' '] (withCommas .compact (forms .compact elements))
      = Text.join [',', ' '] (elements.map (valueForm .compact)) := by
  have margin (node : Node) : node.margin .compact = [] := by cases node <;> rfl
  -- Without comments each element but the last has its comma.
  induction elements with
  | nil => rfl
  | cons element rest ih =>
    cases rest with
    | nil => simp [forms, withCommas, margin, Text.join]
    | cons next rest =>
      have others := ih fun other mem => noComment other (List.mem_cons_of_mem _ mem)
      obtain ⟨piece, pieces, shape⟩ : ∃ piece pieces,
          withCommas .compact (forms .compact (next :: rest)) = piece :: pieces := by
        cases rest <;> exact ⟨_, _, rfl⟩
      rw [shape] at others
      have first : withCommas .compact (forms .compact (element :: next :: rest))
          = (valueForm .compact element ++ [',']) :: piece :: pieces := by
        rw [← shape, forms_cons, forms_cons, withCommas, margin, noComment element (by simp)]
        · rfl
        · rintro ⟨⟩
      have pair : Text.join [',', ' '] ((element :: next :: rest).map (valueForm .compact))
          = valueForm .compact element ++ [',', ' ']
            ++ Text.join [',', ' '] ((next :: rest).map (valueForm .compact)) := rfl
      rw [first, Text.join, others, pair]
      simp

/-- A compact list without comments is printed like the elements of a tuple type. -/
theorem compactListForm {elements : List Node}
    (noComment : ∀ element ∈ elements, element.isComment = false) :
    listForm .compact (forms .compact elements)
      = '[' :: Text.join [',', ' '] (elements.map (valueForm .compact)) ++ [']'] := by
  cases elements with
  | nil => rfl
  | cons element rest =>
    rw [← join_withCommas_compact noComment]
    rfl

mutual

/-- A type prints as the value that it is read for, which is neither a comment nor a heredoc. -/
theorem CastsTo.form {compact : Bool} : ∀ {node type : Node}, CastsTo compact node type →
    ∀ {layout : Layout}, layout.isCompact = compact →
      valueForm layout type = valueForm layout node ∧ onOneLine [node] = true
  | _, _, .bare _, _, _ => ⟨rfl, rfl⟩
  | _, _, .quoted _, _, _ => ⟨rfl, rfl⟩
  | _, _, @CastsTo.collection _ collection argument type inside, layout, same => by
    obtain ⟨form, oneLine⟩ := inside.form same
    refine ⟨?_, rfl⟩
    rw [valueForm_collectionType, valueForm_function, form,
      argumentsForm_oneLine (by simp [needsLines_eq, oneLine])]
    simp [Text.join]
  | _, _, @CastsTo.object _ entries _, layout, same => by
    refine ⟨?_, rfl⟩
    rw [valueForm_objectType, valueForm_function,
      argumentsForm_oneLine (by simp [needsLines_eq, onOneLine, isComment, isHeredoc])]
    rfl
  | _, _, @CastsTo.tuple _ elements types oneLine inside, layout, same => by
    obtain ⟨each, noComment⟩ := inside.form same
    refine ⟨?_, rfl⟩
    rw [valueForm_tupleType, valueForm_function, forms_map_snd, each,
      argumentsForm_oneLine (by simp [needsLines_eq, onOneLine, isComment, isHeredoc])]
    -- A list of types is printed on one line in the compact layout, and in the other if it is
    -- empty.
    rcases oneLine with rfl | rfl
    · cases layout with
      | block => cases same
      | compact =>
        rw [List.map_singleton, Text.join, valueForm_list, Layout.nested, compactListForm noComment]
        simp
    · rfl

/-- The same for several values. -/
theorem CastAll.form {compact : Bool} : ∀ {nodes types : List Node}, CastAll compact nodes types →
    ∀ {layout : Layout}, layout.isCompact = compact →
      types.map (valueForm layout) = nodes.map (valueForm layout)
        ∧ ∀ node ∈ nodes, node.isComment = false
  | _, _, .nil, _, _ => ⟨rfl, nofun⟩
  | _, _, .cons first others, _, same => by
    obtain ⟨form, oneLine⟩ := first.form same
    obtain ⟨each, noComment⟩ := others.form same
    refine ⟨by rw [List.map_cons, form, each, List.map_cons], List.forall_mem_cons.mpr ⟨?_, noComment⟩⟩
    simp [onOneLine] at oneLine
    exact oneLine.1

end

/-! ### Trees print the same -/

/-- No boolean starts like an accessor. -/
theorem isAccessor_boolean {text : Text} (h : IsBoolean text) :
    (Node.unquotedString text).isAccessor = false := by
  obtain ⟨c, rest, rfl, letter⟩ := IsBoolean.starts h
  have apart (mark : Char) (notLetter : isAlphabetic mark = false) : c ≠ mark := by
    rintro rfl
    simp [letter] at notLetter
  have noPoint := apart '.' (by decide)
  have noBracket := apart '[' (by decide)
  unfold isAccessor
  split <;> simp_all

/-- Some terms print as the value of the property that is made of them. -/
theorem settledProperty_form (compact : Bool) (name : Name) (terms : List Node) :
    ∃ kind value, settledProperty compact name terms = .property kind name value
      ∧ ∀ layout : Layout, layout.isCompact = compact →
        valueForm layout value = termsForm layout terms := by
  unfold settledProperty termsAsType?
  split
  · next type found =>
    split at found
    · next term =>
      exact ⟨.type, type, rfl, fun layout same => by
        rw [((castsTo_of_asType? found).form same).1, termsForm_singleton]⟩
    · cases found
  · unfold propertyOfTerms
    split <;> exact ⟨_, _, rfl, fun layout _ => by first | rfl | exact (termsForm_singleton _).symm⟩

/-- The word `dynamic` is printed in front of a dynamic block and as a name alike. -/
theorem BlockHeader.source_settled (header : BlockHeader) : header.settled.source = header.source := by
  obtain ⟨name, isDynamic, label, typeLabel⟩ := header
  unfold BlockHeader.settled
  split
  · next label becomes found =>
    simp only [BlockHeader.becomesDynamic, Bool.and_eq_true, beq_iff_eq, Bool.not_eq_true'] at becomes
    obtain ⟨⟨rfl, rfl⟩, -⟩ := becomes
    obtain rfl : _ = some label := found
    cases typeLabel <;> simp [BlockHeader.source, BlockHeader.source.labelSource, Name.source, Name.bare]
  · rfl

mutual

/-- A node and the tree that is read for it print the same. -/
theorem settled_prints (compact : Bool) : ∀ node : Node,
    PrintsAs compact node (node.settled compact)
  | .root declarations => settledAll_prints compact .root (fun _ _ _ => rfl) [] declarations
  | .block header declarations => by
    have inside : PrintsAs compact (.block header declarations)
        (.block header (settledAll compact declarations)) :=
      settledAll_prints compact (.block header) (fun _ _ _ => rfl) [] declarations
    -- The declarations first, then the header, whose source stays the same.
    refine inside.trans ⟨⟨rfl, rfl, rfl, rfl, ?_, fun _ => rfl⟩, fun _ _ => rfl⟩
    exact congrArg (· ++ [' ']) (BlockHeader.source_settled header).symm
  | .comment style text => by
    unfold settled
    split
    · next turns =>
      obtain ⟨rfl, -⟩ := turns
      refine ⟨⟨rfl, rfl, rfl, rfl, rfl, fun _ => rfl⟩, fun layout same => ?_⟩
      cases layout with
      | block => cases same
      | compact => rfl
    · exact .refl _
  | .unquotedString text => by
    unfold settled
    split
    · next boolean =>
      exact ⟨⟨rfl, rfl, rfl, isAccessor_boolean boolean, rfl, fun _ => rfl⟩, fun _ _ => rfl⟩
    · exact .refl _
  | .unquotedExpression terms => by
    have inside : PrintsAs compact (.unquotedExpression terms)
        (.unquotedExpression (settledAll compact terms)) :=
      settledAll_prints compact .unquotedExpression (fun _ _ _ => rfl) [] terms
    refine inside.trans ⟨?_, fun layout _ => ?_⟩
    -- Joining may leave a number, which the printer treats like an expression.
    · unfold settled ofJoined
      split <;> exact ⟨rfl, rfl, rfl, rfl, rfl, fun _ => rfl⟩
    · rw [settled, valueForm_ofJoined, termsForm_joinSigns]
      rfl
  | .list elements => settledAll_prints compact .list (fun _ _ _ => rfl) [] elements
  | .map entries => settledAll_prints compact .map (fun _ _ _ => rfl) [] entries
  | .function name arguments =>
    settledAll_prints compact (.function name) (fun _ _ _ => rfl) [] arguments
  | .objectType members => settledAll_prints compact .objectType (fun _ _ _ => rfl) [] members
  | .collectionType collection element =>
    (settled_prints compact element).fill (.collectionType collection)
  | .tupleType elements => settledAll_prints compact .tupleType (fun _ _ _ => rfl) [] elements
  | .property kind name value => by
    have inside := settled_prints compact value
    rw [settled]
    split
    · next typed => exact typed ▸ inside.fill (.property .type name)
    -- The value may be printed as a type, or change the kind of the property.
    · obtain ⟨other, settledValue, shape, form⟩ :=
        settledProperty_form compact name (value.settled compact).terms
      rw [shape]
      refine ⟨⟨rfl, rfl, rfl, rfl, rfl, fun _ => rfl⟩, fun layout same => ?_⟩
      rw [valueForm_property, valueForm_property, form layout same, termsForm_terms,
        inside.form layout same]
  | .multilineComment _ | .string _ | .numberOrBool _ | .mathSymbol _ | .forLoop _ | .heredoc _
  | .primitiveType _ _ => .refl _

/-- A node prints the same with the nodes inside it settled, one after the other. -/
theorem settledAll_prints (compact : Bool) {holder : List Node → Node}
    (frame : List Node → List Node → Frame)
    (fills : ∀ front back part, (frame front back).fill part = holder (front ++ part :: back)) :
    ∀ front nodes : List Node,
      PrintsAs compact (holder (front ++ nodes)) (holder (front ++ settledAll compact nodes))
  | front, [] => .refl _
  | front, node :: rest => by
    have first := (settled_prints compact node).fill (frame front rest)
    have others := settledAll_prints compact frame fills (front ++ [node.settled compact]) rest
    rw [fills, fills] at first
    rw [List.append_assoc, List.append_assoc] at others
    exact first.trans others

end

end Node

/-- What is read from the printed form of a document prints the same. -/
theorem Document.render_settled (document : Document) (layout : Layout) :
    (document.settled layout.isCompact).render layout = document.render layout :=
  ((Node.settled_prints layout.isCompact document.root).form layout rfl).symm

end HclSyntax
