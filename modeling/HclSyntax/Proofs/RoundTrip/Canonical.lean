import HclSyntax.Proofs.RoundTrip.Resolved

/-!
# `HclSyntax.Proofs.RoundTrip.Canonical`: trees of blocks, scalars, lists, maps and types

A tree is canonical (`CanonicalDeclaration`) when it has no expressions, calls and heredocs, and when
none of its names and strings is one of the few words that the grammar takes for something else. A
canonical tree is one the grammar describes, and it is `Faithful` everywhere: it is `Told`, and there is
nothing in it that is printed as something else.
-/

set_option autoImplicit false

namespace HclSyntax.Grammar

open Rule Node

/-! ### Canonical trees -/

/-- A quoted name, or a bare one without parentheses that starts neither a for expression nor a
dynamic block. -/
structure CanonicalName (name : Name) : Prop where
  quoted : name.quoted = true → name.text.sequencesEnd = true
  bare : name.quoted = false → name.text ≠ [] ∧ (∀ c ∈ name.text, isNameChar c = true)
    ∧ name.text ≠ forWord ∧ name.text ≠ dynamicWord

/-- A header with up to two labels. -/
structure CanonicalHeader (header : BlockHeader) : Prop where
  name : CanonicalName header.name
  label : ∀ label ∈ header.label, label.sequencesEnd = true
  typeLabel : ∀ label ∈ header.typeLabel, label.sequencesEnd = true
  labels : header.typeLabel.isSome → header.label.isSome

mutual

/-- A type constraint. -/
inductive CanonicalType : Node → Prop
  | primitive {name : Text} {quoted : Bool} (listed : name ∈ primitiveWords) :
    CanonicalType (.primitiveType name quoted)
  | collection {collection : CollectionType} {element : Node} (inside : CanonicalType element) :
    CanonicalType (.collectionType collection element)
  | object {members : List Node} (inside : ∀ member ∈ members, CanonicalMember member) :
    CanonicalType (.objectType members)
  | tuple {elements : List Node} (inside : ∀ element ∈ elements, CanonicalType element) :
    CanonicalType (.tupleType elements)

/-- A member of an object type or a comment between them. -/
inductive CanonicalMember : Node → Prop
  | comment {node : Node} (h : IsComment node) : CanonicalMember node
  | typed {name : Name} {constraint : Node} (isName : CanonicalName name)
    (isType : CanonicalType constraint) : CanonicalMember (.property .type name constraint)

end

mutual

/-- An element of a list. -/
inductive CanonicalElement : Node → Prop
  | comment {node : Node} (h : IsComment node) : CanonicalElement node
  | string {content : Text} (ends : content.sequencesEnd = true) :
    CanonicalElement (.string content)
  | numberOrBool {text : Text} (h : IsNumber text ∨ IsBoolean text) :
    CanonicalElement (.numberOrBool text)
  | list {elements : List Node} (inside : ∀ element ∈ elements, CanonicalElement element) :
    CanonicalElement (.list elements)
  | map {entries : List Node} (inside : ∀ entry ∈ entries, CanonicalDeclaration entry) :
    CanonicalElement (.map entries)

/-- A block, a property or a comment. -/
inductive CanonicalDeclaration : Node → Prop
  | comment {node : Node} (h : IsComment node) : CanonicalDeclaration node
  | block {header : BlockHeader} {declarations : List Node} (isHeader : CanonicalHeader header)
    (inside : ∀ declaration ∈ declarations, CanonicalDeclaration declaration) :
    CanonicalDeclaration (.block header declarations)
  /-- The quoted word for a primitive type is a type. -/
  | string {name : Name} {content : Text} (isName : CanonicalName name)
    (ends : content.sequencesEnd = true) (notType : content ∉ primitiveWords) :
    CanonicalDeclaration (.property .string name (.string content))
  | numberOrBool {name : Name} {text : Text} (isName : CanonicalName name)
    (h : IsNumber text ∨ IsBoolean text) :
    CanonicalDeclaration (.property .string name (.numberOrBool text))
  | list {name : Name} {elements : List Node} (isName : CanonicalName name)
    (inside : ∀ element ∈ elements, CanonicalElement element) :
    CanonicalDeclaration (.property .list name (.list elements))
  | map {name : Name} {entries : List Node} (isName : CanonicalName name)
    (inside : ∀ entry ∈ entries, CanonicalDeclaration entry) :
    CanonicalDeclaration (.property .map name (.map entries))
  | typed {name : Name} {constraint : Node} (isName : CanonicalName name)
    (isType : CanonicalType constraint) :
    CanonicalDeclaration (.property .type name constraint)

end

/-! ### Canonical trees are described by the grammar -/

/-- A canonical name is one that can be read. -/
theorem CanonicalName.isName {name : Name} (h : CanonicalName name) : IsName name := fun bare =>
  .bare (h.bare bare).1 (h.bare bare).2.1

/-- It is not a keyword. -/
theorem CanonicalName.ne_bare {name : Name} (h : CanonicalName name) {word : Text}
    (listed : word ∈ [forWord, dynamicWord]) : name ≠ .bare word := by
  rintro rfl
  obtain ⟨-, -, notFor, notDynamic⟩ := h.bare rfl
  simp only [List.mem_cons, List.not_mem_nil, or_false] at listed
  exact listed.elim notFor notDynamic

mutual

/-- A canonical type is one that can be read. -/
theorem CanonicalType.isType : ∀ {node : Node}, CanonicalType node → IsType node
  | _, .primitive listed => .primitive listed
  | _, .collection inside => .collection inside.isType
  | _, .object inside => .object fun member mem => (inside member mem).isMember
  | _, .tuple inside => .tuple fun element mem => (inside element mem).isType

/-- A canonical member of a map is one that can be read. -/
theorem CanonicalMember.isMember : ∀ {node : Node}, CanonicalMember node → IsMember node
  | _, .comment h => .comment h
  | _, .typed isName isType => .typed isName.isName isType.isType

end

mutual

/-- A canonical element is one that can be read. -/
theorem CanonicalElement.isElement : ∀ {node : Node}, CanonicalElement node → IsElement node
  | _, .comment h => .comment h
  | _, .string _ => isElement_of_operand .string
  | _, .numberOrBool h => isElement_of_operand (.numberOrBool h)
  | _, .list inside => isElement_of_operand (.list fun element mem => (inside element mem).isElement)
  | _, .map inside => isElement_of_operand (.map fun entry mem => (inside entry mem).isDeclaration)

/-- A canonical declaration is one that can be read. -/
theorem CanonicalDeclaration.isDeclaration : ∀ {node : Node}, CanonicalDeclaration node →
    IsDeclaration node
  | _, .comment h => .comment h
  | _, .block isHeader inside => .block ⟨isHeader.name.isName, isHeader.labels⟩
      fun declaration mem => (inside declaration mem).isDeclaration
  | _, @CanonicalDeclaration.string name content isName _ _ =>
    @isDeclaration_of_operand (.string content) .string name isName.isName
  | _, @CanonicalDeclaration.numberOrBool name text isName h =>
    @isDeclaration_of_operand (.numberOrBool text) (.numberOrBool h) name isName.isName
  | _, @CanonicalDeclaration.list name elements isName inside =>
    @isDeclaration_of_operand (.list elements)
      (.list fun element mem => (inside element mem).isElement) name isName.isName
  | _, @CanonicalDeclaration.map name entries isName inside =>
    @isDeclaration_of_operand (.map entries)
      (.map fun entry mem => (inside entry mem).isDeclaration) name isName.isName
  | _, .typed isName isType => .typed isName.isName isType.isType

end

/-! ### Canonical trees are told by their printed form -/

section Faithful

variable {compact : Bool}

/-- A compact tree holds no comment that ends with its line. -/
def NoLineComments (node : Node) : Prop :=
  node.Everywhere fun part => part.isLineComment = false

/-- A node that is told by its printed form, with nothing in it that is printed as something else. -/
def Distinct (compact : Bool) (node : Node) : Prop :=
  Told compact node ∧ node.Resolved

/-- The printed name ends where it is read to. -/
theorem CanonicalName.ends {name : Name} (h : CanonicalName name) : NameEnds name := h.quoted

/-- A comment is told apart, a line comment in lines only. -/
theorem IsComment.everywhere_distinct {node : Node} (h : IsComment node)
    (plain : compact = true → NoLineComments node) : node.Everywhere (Distinct compact) := by
  cases node with
  | comment style text =>
    refine .intro ⟨?_, trivial⟩ fun _ mem => absurd mem List.not_mem_nil
    -- The compact form prints a comment of a line with brackets, and so reads back another one.
    cases compact with
    | true => exact absurd (plain rfl).here (by simp [isLineComment])
    | false => rfl
  | multilineComment text => exact .intro ⟨trivial, trivial⟩ fun _ mem => absurd mem List.not_mem_nil
  | _ => exact absurd h id

/-- Inside a node without line comments there are none. -/
theorem NoLineComments.inside {node part : Node} (plain : compact = true → NoLineComments node)
    (mem : part ∈ node.inside) : compact = true → NoLineComments part :=
  fun same => (plain same).of_mem_inside mem

/-- The test of the printer for a keyword fails on a canonical name. -/
theorem CanonicalName.notEq {name : Name} (h : CanonicalName name) {word : Text}
    (listed : word ∈ [forWord, dynamicWord]) : (name == .bare word) = false :=
  beq_eq_false_iff_ne.mpr (h.ne_bare listed)

/-- No list of canonical elements is read as a for expression, since the word `for` is no element. -/
theorem elementsStartFor_of_canonical {elements : List Node}
    (inside : ∀ element ∈ elements, CanonicalElement element) :
    elementsStartFor compact elements = false := by
  unfold elementsStartFor
  split
  · next text =>
    cases inside (.unquotedString text) (by simp) with
    | comment h => exact absurd h id
  · next text terms others =>
    cases inside (.unquotedExpression (.unquotedString text :: terms)) (by simp) with
    | comment h => exact absurd h id
  · rfl

/-- No canonical map is read as a for expression, since no name is the word `for`. -/
theorem CanonicalDeclaration.startsFor {node : Node} (h : CanonicalDeclaration node) :
    node.startsFor = false := by
  cases h with
  | comment comment => cases node <;> first | rfl | exact absurd comment id
  | block isHeader => simp [Node.startsFor, isHeader.name.notEq]
  | string isName | numberOrBool isName | list isName | map isName | typed isName =>
    simp [Node.startsFor, isName.notEq]

/-- Canonical entries do not start as a for expression does. -/
theorem head_of_canonical {entries : List Node}
    (inside : ∀ entry ∈ entries, CanonicalDeclaration entry) :
    entries.head?.any Node.startsFor = false := by
  cases entries with
  | nil => rfl
  | cons entry others => simpa using (inside entry (by simp)).startsFor

/-- The header of a canonical block is read as printed, and not as that of a dynamic block. -/
theorem CanonicalHeader.distinct {header : BlockHeader} (h : CanonicalHeader header) :
    HeaderEnds header ∧ header.becomesDynamic = false := by
  have notDynamic : (header.name == .bare "dynamic".toList) = false :=
    h.name.notEq (List.mem_cons_of_mem _ List.mem_cons_self)
  exact ⟨⟨h.name.ends, h.label, h.typeLabel⟩, by rw [BlockHeader.becomesDynamic, notDynamic]; rfl⟩

/-- A property is told when its value is told from types and labels. -/
theorem everywhere_property {kind : PropertyKind} {name : Name} {value : Node}
    (isName : CanonicalName name)
    (closed : kind ≠ .type → opensType value = false ∧ opensBody value.terms = false)
    (inside : value.Everywhere (Distinct compact)) :
    (Node.property kind name value).Everywhere (Distinct compact) :=
  .intro ⟨⟨isName.ends, closed⟩, trivial⟩ fun _ mem => List.mem_singleton.mp mem ▸ inside

mutual

/-- All nodes of a canonical type are told apart from others in print. -/
theorem CanonicalType.distinct : ∀ {node : Node}, CanonicalType node →
    (compact = true → NoLineComments node) → node.Everywhere (Distinct compact)
  | _, .primitive _, _ => .intro ⟨trivial, trivial⟩ fun _ mem => absurd mem List.not_mem_nil
  | _, .collection element, plain => .intro ⟨trivial, trivial⟩ fun _ mem =>
    List.mem_singleton.mp mem ▸ element.distinct (NoLineComments.inside plain List.mem_cons_self)
  | _, .object members, plain => .intro ⟨trivial, trivial⟩ fun member mem =>
    (members member mem).distinct (NoLineComments.inside plain mem)
  | _, .tuple elements, plain => .intro ⟨trivial, trivial⟩ fun element mem =>
    (elements element mem).distinct (NoLineComments.inside plain mem)

/-- So are those of a canonical member. -/
theorem CanonicalMember.distinct : ∀ {node : Node}, CanonicalMember node →
    (compact = true → NoLineComments node) → node.Everywhere (Distinct compact)
  | _, .comment h, plain => h.everywhere_distinct plain
  | _, .typed isName isType, plain => everywhere_property isName (fun other => absurd rfl other)
    (isType.distinct (NoLineComments.inside plain List.mem_cons_self))

end

mutual

/-- So are those of a canonical element. -/
theorem CanonicalElement.distinct : ∀ {node : Node}, CanonicalElement node →
    (compact = true → NoLineComments node) → node.Everywhere (Distinct compact)
  | _, .comment h, plain => h.everywhere_distinct plain
  | _, .string ends, _ => .intro ⟨ends, trivial⟩ fun _ mem => absurd mem List.not_mem_nil
  | _, .numberOrBool _, _ => .intro ⟨trivial, trivial⟩ fun _ mem => absurd mem List.not_mem_nil
  | _, .list elements, plain => .intro ⟨elementsStartFor_of_canonical elements, trivial⟩
    fun element mem => (elements element mem).distinct (NoLineComments.inside plain mem)
  | _, .map entries, plain => .intro ⟨head_of_canonical entries, trivial⟩
    fun entry mem => (entries entry mem).distinct (NoLineComments.inside plain mem)

/-- So are those of a canonical declaration. -/
theorem CanonicalDeclaration.distinct : ∀ {node : Node}, CanonicalDeclaration node →
    (compact = true → NoLineComments node) → node.Everywhere (Distinct compact)
  | _, .comment h, plain => h.everywhere_distinct plain
  | _, .block isHeader declarations, plain => .intro isHeader.distinct fun declaration mem =>
    (declarations declaration mem).distinct (NoLineComments.inside plain mem)
  | _, .string isName ends notType, _ => everywhere_property isName
    (fun _ => ⟨by simpa [opensType] using notType, rfl⟩)
    (.intro ⟨ends, trivial⟩ fun _ mem => absurd mem List.not_mem_nil)
  | _, .numberOrBool isName _, _ => everywhere_property isName (fun _ => ⟨rfl, rfl⟩)
    (.intro ⟨trivial, trivial⟩ fun _ mem => absurd mem List.not_mem_nil)
  | _, .list isName elements, plain => everywhere_property isName (fun _ => ⟨rfl, rfl⟩)
    (.intro ⟨elementsStartFor_of_canonical elements, trivial⟩ fun element mem =>
      (elements element mem).distinct
        (NoLineComments.inside (NoLineComments.inside plain List.mem_cons_self) mem))
  | _, .map isName entries, plain => everywhere_property isName (fun _ => ⟨rfl, rfl⟩)
    (.intro ⟨head_of_canonical entries, trivial⟩ fun entry mem =>
      (entries entry mem).distinct
        (NoLineComments.inside (NoLineComments.inside plain List.mem_cons_self) mem))
  | _, .typed isName isType, plain => everywhere_property isName (fun other => absurd rfl other)
    (isType.distinct (NoLineComments.inside plain List.mem_cons_self))

end

/-- A canonical declaration is told from all others. -/
theorem CanonicalDeclaration.everywhere {node : Node} (h : CanonicalDeclaration node)
    (plain : compact = true → NoLineComments node) : node.Everywhere (Faithful compact) :=
  faithful_of_told (.declaration h.isDeclaration) ((h.distinct plain).mono fun _ => And.left)
    ((h.distinct plain).mono fun _ => And.right)

end Faithful

end HclSyntax.Grammar
