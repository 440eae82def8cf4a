import HclSyntax.Proofs.RoundTrip.Expression
import HclSyntax.Proofs.RoundTrip.Settled

/-!
# `HclSyntax.Proofs.RoundTrip.SettledShape`: settled trees are trees of the grammar

Where the grammar describes a tree it describes its settled tree (`IsDeclaration.settled`,
`Document.isDeclaration_settled`). Two steps are more than going through the tree. A sign that joins its
number leaves a term with accessors one, and joins within the terms in front of an operator only
(`IsUnary.settled`, `joinSigns_append`). And the value that is printed as a type was an operand, whose
arguments make it a type of the grammar (`isType_of_castsTo`).
-/

set_option autoImplicit false

namespace HclSyntax.Grammar

open Node

variable {compact : Bool}

/-- Nodes are settled one by one. -/
theorem settledAll_eq_map (nodes : List Node) :
    settledAll compact nodes = nodes.map (settled compact) := by
  induction nodes with
  | nil => rfl
  | cons node rest ih => rw [settledAll, ih, List.map_cons]

/-- What holds of the settled forms of some nodes holds of all that is read for them. -/
theorem forall_mem_settledAll {holds : Node → Prop} {nodes : List Node}
    (h : ∀ node ∈ nodes, holds (node.settled compact)) :
    ∀ node ∈ settledAll compact nodes, holds node := by
  rw [settledAll_eq_map]
  simpa using h

/-! ### Signs and numbers -/

/-- A number without a sign may have one put in front of it. -/
theorem IsNumber.negated {text : Text} (h : IsNumber text) (unsigned : text.head? ≠ some '-') :
    IsNumber ('-' :: text) := by
  obtain ⟨sign, magnitude, rfl, signs, digits⟩ := isNumber_iff.mp h
  cases sign with
  | none => exact isNumber_iff.mpr ⟨some '-', magnitude, rfl, by simp, digits⟩
  | some sign =>
    obtain rfl := signs sign rfl
    exact absurd rfl unsigned

/-- A sign binds the number behind it within the terms in front of an operator only. -/
theorem joinSigns_append {first : Bool} {front : List Node} {symbol : Text} (back : List Node)
    (starts : front = [] → first = false) (last : ∀ term ∈ front.getLast?, term.isSymbol = false) :
    joinSigns first (front ++ .mathSymbol symbol :: back)
      = joinSigns first front ++ .mathSymbol symbol :: joinSigns true back := by
  -- An operator behind a term is no sign, so it does not join what follows.
  have alone {first : Bool} (isFirst : first = false) :
      joinSigns first (.mathSymbol symbol :: back) = .mathSymbol symbol :: joinSigns true back := by
    subst isFirst
    cases back <;> simp [joinSigns, isSymbol]
  fun_induction joinSigns first front with
  | case1 first term next rest binds ih =>
    have lastBehind : ∀ term ∈ rest.getLast?, term.isSymbol = false := by
      cases rest with
      | nil => simp
      | cons => simpa only [List.getLast?_cons_cons] using last
    rw [List.cons_append, List.cons_append, joinSigns, if_pos binds, ih (fun _ => rfl) lastBehind,
      List.cons_append]
  | case2 first term next rest binds ih =>
    rw [List.cons_append, List.cons_append, joinSigns, if_neg binds, ← List.cons_append,
      ih (by simp) (by simpa using last), List.cons_append]
  | case3 first terms other =>
    rcases terms with _ | ⟨term, _ | ⟨next, rest⟩⟩
    · exact alone (starts rfl)
    · have notSymbol : term.isSymbol = false := by simpa using last
      have notMinus : term.isMinus = false := by cases term <;> first | rfl | cases notSymbol
      rw [List.singleton_append, joinSigns, notMinus]
      simp [alone notSymbol]
    · exact absurd rfl (other term next rest)

/-- Joining signs does not change whether some terms end with a heredoc. -/
theorem getLast?_joinSigns {first : Bool} (terms : List Node) :
    (joinSigns first terms).getLast?.map isHeredoc = terms.getLast?.map isHeredoc := by
  have cons {term other : Node} {front back : List Node} (same : term.isHeredoc = other.isHeredoc)
      (h : front.getLast?.map isHeredoc = back.getLast?.map isHeredoc) :
      (term :: front).getLast?.map isHeredoc = (other :: back).getLast?.map isHeredoc := by
    rw [List.getLast?_cons, List.getLast?_cons]
    generalize front.getLast? = last at h ⊢
    generalize back.getLast? = other at h ⊢
    cases last <;> cases other <;> simp_all
  fun_induction joinSigns first terms with
  | case1 first term next rest binds ih =>
    simp only [Bool.and_eq_true] at binds
    obtain ⟨text, rfl, -⟩ := eq_number binds.2
    rw [List.getLast?_cons_cons]
    exact cons rfl ih
  | case2 first term next rest binds ih => exact cons rfl ih
  | case3 => rfl

/-- Terms that became one are a number, if they were not one before. -/
theorem eq_number_of_joinSigns {first : Bool} {terms : List Node} {node : Node}
    (h : joinSigns first terms = [node]) : terms = [node] ∨ ∃ text, node = .numberOrBool text := by
  unfold joinSigns at h
  split at h
  · next term next rest =>
    split at h
    · next binds =>
      simp only [Bool.and_eq_true] at binds
      obtain ⟨text, rfl, -⟩ := eq_number binds.2
      exact .inr ⟨_, (List.cons.inj h).1.symm⟩
    -- Joining never leaves nothing of a term.
    · have nothing : joinSigns term.isSymbol (next :: rest) = [] := (List.cons.inj h).2
      have last := @getLast?_joinSigns term.isSymbol (next :: rest)
      rw [nothing, List.getLast?_cons] at last
      cases last
  · exact .inl h

/-! ### Leaves -/

/-- A settled comment is a comment. -/
theorem IsComment.settled {node : Node} (h : IsComment node) : IsComment (node.settled compact) := by
  cases node with
  | comment style text =>
    unfold Node.settled
    split
    · next turns => exact turns.2
    · exact h
  | multilineComment => exact h
  | _ => exact absurd h id

/-- Accessors are no booleans. -/
theorem IsAccessorText.settled {text : Text} (h : IsAccessorText text) :
    (Node.unquotedString text).settled compact = .unquotedString text := by
  refine if_neg fun boolean => ?_
  have apart := isAccessor_boolean boolean
  simp [h.isAccessor] at apart

/-! ### Types -/

/-- An element that is neither a comment nor an expression is a term. -/
theorem IsElement.operand {node : Node} (h : IsElement node) (noComment : node.isComment = false)
    (single : ∀ terms, node ≠ .unquotedExpression terms) : IsOperand node := by
  cases h with
  | comment comment => simp [comment.isComment] at noComment
  | @value terms areTerms =>
    unfold ofTerms at single ⊢
    split
    · exact areTerms.operand
    · next several =>
      exact absurd (by split; exact absurd rfl (several _); rfl) (single terms)

/-- Only a single operand is printed as a type. -/
theorem operand_of_castsTo {node type : Node} (h : CastsTo compact node type)
    (element : IsElement node) : IsOperand node := by
  cases h <;> exact element.operand rfl nofun

/-- An entry of a map that may stand in an object type is one of its members. -/
theorem IsDeclaration.isMember {node : Node} (h : IsDeclaration node)
    (member : node.isMember = true) : IsMember node := by
  cases h with
  | comment comment => exact .comment comment
  | block => cases member
  | @property name terms _ areTerms =>
    obtain ⟨kind, value, shape, notType, -⟩ := areTerms.propertyOfTerms_eq name
    rw [shape] at member
    cases kind with
    | type => exact absurd rfl notType
    | _ => cases member
  | typed isName isType => exact .typed isName isType

/-- The argument of a call is an element. -/
theorem IsOperand.argument {name : Option Text} {argument : Node}
    (h : IsOperand (.function name [argument])) : IsElement argument := by
  cases h with
  | call _ arguments | group arguments => exact arguments _ List.mem_cons_self

mutual

/-- An operand is printed as a type that the grammar describes, if as any. -/
theorem isType_of_castsTo : ∀ {node type : Node}, CastsTo compact node type →
    IsOperand node → IsType type
  | _, _, .bare listed => fun _ => .primitive listed
  | _, _, .quoted listed => fun _ => .primitive listed
  | _, _, .collection inside => fun operand =>
    .collection (isType_of_castsTo inside (operand_of_castsTo inside operand.argument))
  | _, _, .object members => fun operand => by
    cases operand.argument.operand rfl nofun with
    | map inside => exact .object fun entry mem => (inside entry mem).isMember (members entry mem)
  | _, _, .tuple _ inside => fun operand => by
    cases operand.argument.operand rfl nofun with
    | list elements => exact .tuple (areTypes_of_castAll inside elements)

/-- Values that are printed as types become types of the grammar. -/
theorem areTypes_of_castAll : ∀ {nodes types : List Node}, CastAll compact nodes types →
    (∀ node ∈ nodes, IsElement node) → ∀ type ∈ types, IsType type
  | _, _, .nil => fun _ => nofun
  | _, _, .cons first others => fun elements => by
    obtain ⟨element, elements⟩ := List.forall_mem_cons.mp elements
    exact List.forall_mem_cons.mpr
      ⟨isType_of_castsTo first (operand_of_castsTo first element), areTypes_of_castAll others elements⟩

end

mutual

/-- A settled type is a type of the grammar. -/
theorem IsType.settled : ∀ {node : Node}, IsType node → IsType (node.settled compact)
  | _, .primitive listed => .primitive listed
  | _, .collection inside => .collection inside.settled
  | _, .object inside => .object (forall_mem_settledAll fun member mem => (inside member mem).settled)
  | _, .tuple inside => .tuple (forall_mem_settledAll fun element mem => (inside element mem).settled)

/-- A settled member is a member of an object type. -/
theorem IsMember.settled : ∀ {node : Node}, IsMember node → IsMember (node.settled compact)
  | _, .comment comment => .comment comment.settled
  | _, .typed isName isType => .typed isName isType.settled

end

/-! ### Values -/

/-- The terms that are read for some terms. -/
def settledTerms (compact : Bool) (terms : List Node) : List Node :=
  joinSigns true (settledAll compact terms)

/-- Joining signs starts over behind a number. -/
theorem joinSigns_number {first : Bool} (text : Text) (rest : List Node) :
    joinSigns first (.numberOrBool text :: rest) = .numberOrBool text :: joinSigns false rest := by
  cases rest <;> simp [joinSigns, isMinus, isSymbol]

/-- Settled terms end with a heredoc if the terms do. -/
theorem getLast?_settledTerms (terms : List Node) :
    (settledTerms compact terms).getLast?.any isHeredoc = terms.getLast?.any isHeredoc := by
  have joined := @getLast?_joinSigns true (settledAll compact terms)
  have each : (settledAll compact terms).getLast?.map isHeredoc = terms.getLast?.map isHeredoc := by
    rw [settledAll_eq_map, List.getLast?_map, Option.map_map]
    exact congrArg (Option.map · terms.getLast?)
      (funext fun node => (settled_prints compact node).heredoc.symm)
  have same := joined.trans each
  rw [← settledTerms] at same
  generalize (settledTerms compact terms).getLast? = last at same ⊢
  generalize terms.getLast? = other at same ⊢
  cases last <;> cases other <;> simp_all

/-- A term that takes accessors is read as one that does, and as a number only if it is that number. -/
theorem settled_takesAccessor {node : Node} (h : IsOperand node) (takes : takesAccessor node = true) :
    takesAccessor (node.settled compact) = true ∧ (node.settled compact).isMinus = false
      ∧ ∀ text, node.settled compact = .numberOrBool text → node = .numberOrBool text := by
  cases h with
  | heredoc | unquoted => cases takes
  | numberOrBool => exact ⟨rfl, rfl, fun _ same => same⟩
  | _ => exact ⟨rfl, rfl, fun _ same => nomatch same⟩

/-- A single term is read as one. -/
theorem terms_settled {node : Node} (h : IsOperand node) :
    (node.settled compact).terms = [node.settled compact] := by
  cases h with
  | unquoted =>
    rw [settled]
    split <;> rfl
  | _ => rfl

/-- If the only term left is a number, the terms are the value of the grammar. -/
theorem ofJoined_eq_ofTerms {terms : List Node}
    (number : ∀ node, terms = [node] → ∃ text, node = .numberOrBool text) :
    ofJoined terms = ofTerms terms := by
  unfold ofTerms
  split
  · next node =>
    obtain ⟨text, rfl⟩ := number node rfl
    rfl
  · next several =>
    unfold ofJoined
    split
    · exact absurd rfl (several _)
    · rfl

/-- The terms are kept. -/
theorem terms_ofJoined (terms : List Node) : (ofJoined terms).terms = terms := by
  unfold ofJoined
  split <;> rfl

/-- A value is read as the value that its terms are read as. -/
theorem settled_ofTerms {terms : List Node} (nonempty : terms ≠ []) :
    (ofTerms terms).settled compact = ofTerms (settledTerms compact terms) := by
  match terms, nonempty with
  | [term], _ => rfl
  | term :: next :: rest, _ =>
    refine ofJoined_eq_ofTerms fun node single => ?_
    rcases eq_number_of_joinSigns single with same | number
    · cases same
    · exact number

/-- The property that is read for a property of some terms. -/
theorem settled_propertyOfTerms {multiline : Bool} {terms : List Node} (h : AreTerms multiline terms)
    (name : Name) :
    (propertyOfTerms name terms).settled compact
      = settledProperty compact name (settledTerms compact terms) := by
  obtain ⟨kind, value, shape, notType, parts, -⟩ := h.propertyOfTerms_eq name
  rw [shape, settled, if_neg notType]
  refine congrArg (settledProperty compact name) ?_
  cases value with
  | unquotedExpression terms =>
    obtain rfl : terms = _ := parts
    exact terms_ofJoined _
  | _ =>
    obtain rfl : [_] = terms := parts
    exact terms_settled h.operand

/-- A settled header is a header of the grammar. -/
theorem IsHeader.settled {header : BlockHeader} (h : IsHeader header) : IsHeader header.settled := by
  unfold BlockHeader.settled
  split
  · exact ⟨fun bare => absurd bare (by simp), by simp⟩
  · exact h

/-- A sign put in front of a number leaves its accessors in place. -/
theorem IsUnary.negated {text : Text} {rest : List Node} (h : IsUnary (.numberOrBool text :: rest))
    (number : IsNumber text) (unsigned : text.head? ≠ some '-') :
    IsUnary (.numberOrBool ('-' :: text) :: rest) := by
  have operand : IsOperand (.numberOrBool ('-' :: text)) := .numberOrBool (.inl (number.negated unsigned))
  cases h with
  | bare => exact .bare operand
  | accessed _ _ accessor index => exact .accessed operand rfl accessor fun _ _ => index text rfl

/-! ### Trees of the grammar -/

/-- An unquoted text stays a term, as itself or as a boolean. -/
theorem IsOperand.settled_unquoted {text : Text} (h : IsOperand (.unquotedString text)) :
    IsOperand ((Node.unquotedString text).settled compact) := by
  rw [settled]
  split
  · next isBoolean => exact .numberOrBool (.inr isBoolean)
  · exact h

/-- An operand with an accessor is read as one where the operand is. -/
theorem IsUnary.settled_accessed {node : Node} {text : Text} (operand : IsOperand node)
    (takes : takesAccessor node = true) (accessor : IsAccessorText text)
    (index : ∀ number, node = .numberOrBool number → text.head? = some '[')
    (operand' : IsOperand (node.settled compact)) :
    IsUnary (settledTerms compact [node, .unquotedString text]) := by
  obtain ⟨settledTakes, notMinus, same⟩ := settled_takesAccessor operand takes
  have terms : settledTerms compact [node, .unquotedString text]
      = [node.settled compact, .unquotedString text] := by
    rw [settledTerms, settledAll, settledAll, settledAll, accessor.settled, joinSigns, notMinus]
    rfl
  exact terms ▸ .accessed operand' settledTakes accessor fun number is => index number (same _ is)

/-- A term with a sign in front is read as one, or as a number with a sign. -/
theorem IsUnary.settled_signed {sign : Char} {terms : List Node} (isSign : sign = '!' ∨ sign = '-')
    (unary : IsUnary terms) (behind : IsUnary (settledTerms compact terms)) :
    IsUnary (settledTerms compact (.mathSymbol [sign] :: terms)) := by
  have whole : settledTerms compact (.mathSymbol [sign] :: terms)
      = joinSigns true (.mathSymbol [sign] :: settledAll compact terms) := rfl
  have nonempty : settledAll compact terms ≠ [] := by
    simpa [settledAll_eq_map] using unary.ne_nil
  obtain ⟨next, rest, shape⟩ := List.exists_cons_of_ne_nil nonempty
  rw [settledTerms, shape] at behind
  rw [whole, shape, joinSigns]
  split
  · next binds =>
    -- The number is the first of the terms, so it is joined with no other sign.
    simp only [Bool.and_eq_true] at binds
    obtain ⟨text, rfl, number, unsigned⟩ := eq_number binds.2
    rw [joinSigns_number] at behind
    exact behind.negated number unsigned
  · exact .signed isSign behind

/-- The terms around an operator are read apart. -/
theorem IsUnary.settledTerms_operator {front : List Node} (first : IsUnary front) (symbol : Text)
    (back : List Node) :
    settledTerms compact (front ++ .mathSymbol symbol :: back)
      = settledTerms compact front ++ .mathSymbol symbol :: settledTerms compact back := by
  rw [settledTerms, settledAll_eq_map, List.map_append, List.map_cons, ← settledAll_eq_map,
    ← settledAll_eq_map]
  refine joinSigns_append _ (fun nothing => absurd nothing ?_) ?_
  · simpa [settledAll_eq_map] using first.ne_nil
  · rw [settledAll_eq_map, List.getLast?_map]
    rintro term last
    obtain ⟨source, found, rfl⟩ := Option.map_eq_some_iff.mp last
    exact (settled_prints compact source).symbol.symm.trans (first.last source found)

/-- A property of terms is read as one, or as a property of the type that they are printed as. -/
theorem IsDeclaration.settled_property {name : Name} {terms : List Node} (isName : IsName name)
    (areTerms : AreTerms false terms) (areTerms' : AreTerms false (settledTerms compact terms)) :
    IsDeclaration ((propertyOfTerms name terms).settled compact) := by
  rw [settled_propertyOfTerms areTerms, settledProperty]
  split
  · next type found =>
    unfold termsAsType? at found
    split at found
    · next term single =>
      rw [single] at areTerms'
      exact .typed isName (isType_of_castsTo (castsTo_of_asType? found) areTerms'.operand)
    · cases found
  · exact .property isName areTerms'

mutual

/-- An operand is read as one. -/
theorem IsOperand.settled : ∀ {node : Node}, IsOperand node → IsOperand (node.settled compact)
  | _, .call isName inside => .call isName (forall_mem_settledAll fun argument mem =>
    (inside argument mem).settled)
  | _, .group inside => .group (forall_mem_settledAll fun argument mem => (inside argument mem).settled)
  | _, .loop h brackets => .loop h brackets
  | _, .list inside => .list (forall_mem_settledAll fun element mem => (inside element mem).settled)
  | _, .map inside => .map (forall_mem_settledAll fun entry mem => (inside entry mem).settled)
  | _, .heredoc h => .heredoc h
  | _, .string => .string
  | _, .numberOrBool h => .numberOrBool h
  | _, .unquoted h notNumber boolean => IsOperand.settled_unquoted (.unquoted h notNumber boolean)

/-- A term with its signs and accessors is read as one. -/
theorem IsUnary.settled : ∀ {terms : List Node}, IsUnary terms → IsUnary (settledTerms compact terms)
  | _, .bare operand => .bare operand.settled
  | _, .accessed operand takes accessor index =>
    .settled_accessed operand takes accessor index operand.settled
  | _, .signed isSign unary => .settled_signed isSign unary unary.settled

/-- Settled terms are terms of the grammar. -/
theorem AreTerms.settled : ∀ {multiline : Bool} {terms : List Node}, AreTerms multiline terms →
    AreTerms multiline (settledTerms compact terms)
  | _, _, .one unary => .one unary.settled
  | _, _, .more first listed lines others =>
    first.settledTerms_operator _ _ ▸ .more first.settled listed
      (fun oneLine => (getLast?_settledTerms _).trans (lines oneLine)) others.settled

/-- What stands in a list or call is read as such. -/
theorem IsElement.settled : ∀ {node : Node}, IsElement node → IsElement (node.settled compact)
  | _, .comment comment => .comment comment.settled
  | _, .value areTerms => settled_ofTerms areTerms.ne_nil ▸ .value areTerms.settled

/-- A declaration is read as one. -/
theorem IsDeclaration.settled : ∀ {node : Node}, IsDeclaration node →
    IsDeclaration (node.settled compact)
  | _, .comment comment => .comment comment.settled
  | _, .block isHeader inside => .block isHeader.settled
    (forall_mem_settledAll fun declaration mem => (inside declaration mem).settled)
  | _, .property isName areTerms => .settled_property isName areTerms areTerms.settled
  | _, .typed isName isType => .typed isName isType.settled

end

end HclSyntax.Grammar

namespace HclSyntax

open Grammar

/-- What is read from the printed form of a document is described by the grammar where the document is. -/
theorem Document.isDeclaration_settled {compact : Bool} {document : Document}
    (inside : ∀ node ∈ document.declarations, IsDeclaration node) :
    ∀ node ∈ (document.settled compact).declarations, IsDeclaration node :=
  forall_mem_settledAll fun node mem => (inside node mem).settled

end HclSyntax
