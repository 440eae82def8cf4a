import HclSyntax.Node.View
import HclSyntax.Proofs.RoundTrip.Resolved

/-!
# `HclSyntax.Proofs.RoundTrip.Kept`: trees that stay as they are

`Node.Kept` says, kind by kind, what a node needs so that it is not read as one of another kind from its
printed form. `settled_eq_self_iff` says that it is what is needed: a parsed tree is its own settled
tree exactly if all of it is kept.

A settled tree that is not the tree itself does not look like it either: where the two have the same
view, they are the same (`settled_eq_self_of_view`).
-/

set_option autoImplicit false

namespace HclSyntax

open Grammar

namespace Node

/-- The printed form of a node is read as a node of this kind. -/
def Kept (compact : Bool) : Node → Prop
  | .block header _ => header.becomesDynamic = false
  | .comment _ text => compact = true → closingMarker <:+: text
  | .unquotedString text => ¬ IsBoolean text
  | .unquotedExpression terms =>
    bindsSign true terms = false ∧ (ofJoined terms).kind = .unquotedExpression
  | .property kind _ value => kind ≠ .type → termsAsType? compact value.terms = none
  | _ => True

instance (compact : Bool) : DecidablePred (Kept compact)
  | .block _ _ => inferInstanceAs (Decidable (_ = _))
  | .comment _ _ | .property _ _ _ => inferInstanceAs (Decidable (_ → _))
  | .unquotedString _ => inferInstanceAs (Decidable (¬ _))
  | .unquotedExpression _ => inferInstanceAs (Decidable (_ ∧ _))
  | .root _ | .multilineComment _ | .string _ | .numberOrBool _ | .mathSymbol _ | .list _ | .map _
  | .forLoop _ | .function _ _ | .heredoc _ | .primitiveType _ _ | .objectType _
  | .collectionType _ _ | .tupleType _ => .isTrue trivial

variable {compact : Bool}

/-! ### Terms -/

/-- Joining signs makes terms fewer, or leaves them as they are. -/
theorem joinSigns_shorter (first : Bool) (terms : List Node) :
    joinSigns first terms = terms ∨ (joinSigns first terms).length < terms.length := by
  have notLonger (first : Bool) (terms : List Node) : (joinSigns first terms).length ≤ terms.length := by
    fun_induction joinSigns first terms with
    | case1 first term next rest binds ih => exact Nat.le_succ_of_le (Nat.succ_le_succ ih)
    | case2 first term next rest binds ih => exact Nat.succ_le_succ ih
    | case3 => exact Nat.le_refl _
  fun_induction joinSigns first terms with
  | case1 first term next rest binds ih =>
    exact .inr (Nat.succ_lt_succ (Nat.lt_succ_of_le (notLonger false rest)))
  | case2 first term next rest binds ih =>
    exact ih.imp (congrArg (term :: ·)) Nat.succ_lt_succ
  | case3 => exact .inl rfl

/-- Joining a sign and its number makes one term of two, so terms of the same number are the same.
-/
theorem joinSigns_eq_of_length {first : Bool} {terms : List Node}
    (same : (joinSigns first terms).length = terms.length) : joinSigns first terms = terms :=
  (joinSigns_shorter first terms).resolve_right fun shorter => absurd same (Nat.ne_of_lt shorter)

/-- Where no sign is to be joined, joining leaves the terms as they are. -/
theorem joinSigns_of_bindsSign {first : Bool} {terms : List Node} (h : bindsSign first terms = false) :
    joinSigns first terms = terms := by
  fun_induction joinSigns first terms with
  | case1 first term next rest binds ih => simp [bindsSign, binds] at h
  | case2 first term next rest binds ih =>
    exact congrArg (term :: ·) (ih (Bool.or_eq_false_iff.mp h).2)
  | case3 => rfl

/-- Nodes are settled if each of them is. -/
theorem settledAll_eq_self_iff {nodes : List Node} :
    settledAll compact nodes = nodes ↔ ∀ node ∈ nodes, settled compact node = node := by
  rw [settledAll_eq_map]
  simpa using @List.map_inj_left _ _ nodes (settled compact) id

/-- Terms that are read as they are have no sign to be joined, and each of them is read as it is. -/
theorem settledTerms_eq_self {terms : List Node} (same : settledTerms compact terms = terms) :
    settledAll compact terms = terms ∧ bindsSign true terms = false := by
  have each : settledAll compact terms = terms := by
    refine (joinSigns_eq_of_length ?_).symm.trans same
    rw [← settledTerms, same, settledAll_eq_map, List.length_map]
  have joined := bindsSign_joinSigns true (settledAll compact terms)
  rw [← settledTerms, same] at joined
  exact ⟨each, joined⟩

/-! ### Equal views -/

/-- Nodes are viewed one by one. -/
theorem views_eq_map (nodes : List Node) : views nodes = nodes.map view := by
  induction nodes with
  | nil => rfl
  | cons node rest ih => rw [views, ih]; rfl

/-- Nodes that are read as they are where they look the same. -/
theorem settledAll_eq_self_of_views {nodes : List Node}
    (each : ∀ node ∈ nodes, (settled compact node).view = node.view → settled compact node = node)
    (same : views (settledAll compact nodes) = views nodes) : settledAll compact nodes = nodes := by
  refine settledAll_eq_self_iff.mpr fun node mem => each node mem ?_
  rw [settledAll_eq_map, views_eq_map, views_eq_map, List.map_map, List.map_inj_left] at same
  exact same node mem

/-- Terms that are read as they are where they look the same. -/
theorem settledTerms_eq_self_of_views {terms : List Node}
    (each : ∀ term ∈ terms, (settled compact term).view = term.view → settled compact term = term)
    (same : views (settledTerms compact terms) = views terms) : settledTerms compact terms = terms := by
  have unchanged : settledTerms compact terms = settledAll compact terms := by
    refine joinSigns_eq_of_length ?_
    rw [← settledTerms, ← List.length_map view, ← views_eq_map, same, views_eq_map, settledAll_eq_map,
      List.length_map, List.length_map]
  rw [unchanged] at same ⊢
  exact settledAll_eq_self_of_views each same

end Node

/-- A header is settled unless it would be read as that of a dynamic block. -/
theorem BlockHeader.settled_eq_self {header : BlockHeader} (h : header.becomesDynamic = false) :
    header.settled = header := by
  unfold BlockHeader.settled
  rw [h]

/-- A header that looks as before is the one before. -/
theorem BlockHeader.settled_eq_self_of_labels {header : BlockHeader}
    (label : header.settled.label = header.label)
    (typeLabel : header.settled.typeLabel = header.typeLabel) : header.settled = header := by
  unfold BlockHeader.settled at label typeLabel ⊢
  split at label
  · next first becomes found =>
    -- The name of a dynamic block takes the place of its first label, and leaves no second one.
    rw [becomes, found] at typeLabel
    exact absurd (found.symm.trans (label.symm.trans typeLabel.symm)) nofun
  · rfl

namespace View

/-- The attributes of the node that is viewed. -/
def attributes : View → Attributes
  | .leaf attributes => attributes
  | .branch attributes _ => attributes

/-- The view of a node has its attributes. -/
theorem attributes_view (node : Node) : node.view.attributes = node.attributes := by
  unfold Node.view View.ofChildren
  split <;> rfl

/-- The views of the terms that a property is made of. -/
def propertyTerms : View → List View
  | .branch ⟨.listProperty, _, _, _⟩ elements => [.branch ⟨.list, none, none, none⟩ elements]
  | .branch ⟨.mapProperty, _, _, _⟩ entries => [.branch ⟨.map, none, none, none⟩ entries]
  | .branch _ [.branch ⟨.unquotedExpression, _, _, _⟩ terms] => terms
  | .branch _ value => value
  | .leaf _ => []

/-- The terms of a property are seen in its view. -/
theorem propertyTerms_view (name : Name) (terms : List Node) :
    (propertyOfTerms name terms).view.propertyTerms = Node.views terms := by
  unfold propertyOfTerms
  split <;> rfl

end View

namespace Node

variable {compact : Bool}

/-- A settled tree that looks like the tree itself is the tree itself. -/
theorem settled_eq_self_of_view {node : Node} (shaped : node.Everywhere Shaped)
    (same : (settled compact node).view = node.view) : settled compact node = node := by
  have recurse (part : Node) (smaller : sizeOf part < sizeOf node) (h : part.Everywhere Shaped) :=
    @settled_eq_self_of_view part h
  have inside (part : Node) (mem : part ∈ node.inside) :=
    recurse part (sizeOf_lt_of_mem_inside mem) (shaped.of_mem_inside mem)
  cases node with
  | root nodes | list nodes | map nodes | function _ nodes | objectType nodes | tupleType nodes =>
    exact congrArg _ (settledAll_eq_self_of_views inside (View.branch.inj same).2)
  | block header declarations =>
    obtain ⟨attributes, views⟩ := View.branch.inj same
    obtain ⟨-, -, label, typeLabel⟩ := Attributes.mk.inj attributes
    have declarations := settledAll_eq_self_of_views inside views
    rw [settled, BlockHeader.settled_eq_self_of_labels label typeLabel]
    exact congrArg _ declarations
  | comment style text =>
    unfold settled at same ⊢
    split at same
    · cases same
    · next stays => rw [if_neg stays]
  | unquotedString text =>
    unfold settled at same ⊢
    split at same
    · cases same
    · next stays => rw [if_neg stays]
  | unquotedExpression terms =>
    unfold settled ofJoined at same ⊢
    split at same
    · cases same
    · exact congrArg _ (settledTerms_eq_self_of_views inside (View.branch.inj same).2)
  | collectionType collection element =>
    have element := (List.cons.inj (View.branch.inj same).2).1
    exact congrArg _ (inside _ List.mem_cons_self element)
  | property kind name value =>
    by_cases typed : kind = .type
    · subst typed
      have value := (List.cons.inj (View.branch.inj same).2).1
      exact congrArg _ (inside _ List.mem_cons_self value)
    · obtain ⟨areTerms, made⟩ := shaped.here.areTerms typed
      have smaller : sizeOf value < sizeOf (Node.property kind name value) :=
        sizeOf_lt_of_mem_inside List.mem_cons_self
      have each (term : Node) (mem : term ∈ value.terms) :=
        recurse term (Nat.lt_of_le_of_lt (sizeOf_le_of_mem_terms mem) smaller)
          (everywhere_of_mem_terms (shaped.of_mem_inside List.mem_cons_self) mem)
      rw [← made, settled_propertyOfTerms areTerms, settledProperty] at same ⊢
      split at same
      · -- A property of terms does not look like one of a type.
        have attributes := congrArg View.attributes same
        rw [View.attributes_view, View.attributes_view, made] at attributes
        have kinds := (Attributes.mk.inj attributes).1
        cases kind <;> first | exact absurd rfl typed | cases kinds
      · have views := congrArg View.propertyTerms same
        rw [View.propertyTerms_view, View.propertyTerms_view] at views
        rw [settledTerms_eq_self_of_views each views]
  | _ => rfl
termination_by sizeOf node
decreasing_by exact smaller

/-! ### Kept trees -/

/-- The value of a property whose terms are read as they are is read as it is. -/
theorem settled_eq_self_of_terms {kind : PropertyKind} {name : Name} {terms : List Node} {value : Node}
    (made : propertyOfTerms name terms = .property kind name value)
    (same : settledTerms compact terms = terms) : settled compact value = value := by
  unfold propertyOfTerms at made
  split at made
  case h_8 noNumber _ _ =>
    obtain ⟨-, -, rfl⟩ := Node.property.inj made
    rw [settled, ← settledTerms, same]
    unfold ofJoined
    split
    · exact absurd rfl (noNumber _)
    · rfl
  all_goals
    obtain ⟨-, -, rfl⟩ := Node.property.inj made
    exact (List.cons.inj same).1

/-- Where a node is read as it is, it is kept, and so is what stands in it. -/
theorem kept_of_settled {node : Node} (shaped : Shaped node) (same : settled compact node = node) :
    Kept compact node ∧ ∀ part ∈ node.inside, settled compact part = part := by
  cases node with
  | root nodes | list nodes | map nodes | function _ nodes | objectType nodes | tupleType nodes =>
    simp only [settled, root.injEq, list.injEq, map.injEq, function.injEq, objectType.injEq,
      tupleType.injEq, true_and] at same
    exact ⟨trivial, settledAll_eq_self_iff.mp same⟩
  | block header declarations =>
    obtain ⟨header', declarations'⟩ := Node.block.inj same
    exact ⟨header' ▸ becomesDynamic_settled header, settledAll_eq_self_iff.mp declarations'⟩
  | comment style text =>
    refine ⟨fun isCompact => ?_, List.forall_mem_nil _⟩
    by_contra inside
    rw [settled, if_pos ⟨isCompact, inside⟩] at same
    cases same
  | unquotedString text =>
    refine ⟨fun boolean => ?_, List.forall_mem_nil _⟩
    rw [settled, if_pos boolean] at same
    cases same
  | unquotedExpression terms =>
    rw [settled, ← settledTerms] at same
    -- The terms did not change, so none was settled and no sign was joined.
    have unchanged : settledTerms compact terms = terms :=
      (terms_ofJoined _).symm.trans (congrArg Node.terms same)
    rw [unchanged] at same
    obtain ⟨each, noSign⟩ := settledTerms_eq_self unchanged
    exact ⟨⟨noSign, congrArg Node.kind same⟩, settledAll_eq_self_iff.mp each⟩
  | collectionType collection element =>
    exact ⟨trivial, fun part mem => List.mem_singleton.mp mem ▸ (Node.collectionType.inj same).2⟩
  | property kind name value =>
    -- A type is settled part by part, any other value is made of its terms again.
    by_cases typed : kind = .type
    · subst typed
      obtain ⟨-, -, value⟩ := Node.property.inj same
      exact ⟨fun notType => absurd rfl notType, fun part mem => List.mem_singleton.mp mem ▸ value⟩
    obtain ⟨areTerms, made⟩ := shaped.areTerms typed
    rw [← made, settled_propertyOfTerms areTerms, settledProperty, made] at same
    split at same
    · exact absurd (Node.property.inj same).1.symm typed
    · next noType =>
      obtain ⟨_, _, shape, -, parts, -⟩ :=
        (@AreTerms.settled compact _ _ areTerms).propertyOfTerms_eq name
      obtain ⟨-, -, rfl⟩ := Node.property.inj (shape.symm.trans same)
      rw [← parts] at noType
      exact ⟨fun _ => noType, fun part mem => List.mem_singleton.mp mem ▸
        settled_eq_self_of_terms made parts.symm⟩
  | _ => exact ⟨trivial, List.forall_mem_nil _⟩

/-- A node is read as it is where it is kept, and what stands in it is read as it is. -/
theorem settled_of_kept {node : Node} (shaped : Shaped node) (kept : Kept compact node)
    (inside : ∀ part ∈ node.inside, settled compact part = part) : settled compact node = node := by
  cases node with
  | root nodes | list nodes | map nodes | function _ nodes | objectType nodes | tupleType nodes =>
    exact congrArg _ (settledAll_eq_self_iff.mpr inside)
  | block header declarations =>
    exact congr (congrArg _ (BlockHeader.settled_eq_self kept)) (settledAll_eq_self_iff.mpr inside)
  | comment style text =>
    exact if_neg fun ⟨isCompact, noMarker⟩ => noMarker (kept isCompact)
  | unquotedString text => exact if_neg kept
  | unquotedExpression terms =>
    obtain ⟨noSign, several⟩ := kept
    have each : settledAll compact terms = terms := settledAll_eq_self_iff.mpr inside
    rw [settled, each, joinSigns_of_bindsSign noSign]
    unfold ofJoined at several ⊢
    split
    · cases several
    · rfl
  | collectionType collection element => exact congrArg _ (inside _ List.mem_cons_self)
  | property kind name value =>
    have value : settled compact value = value := inside _ List.mem_cons_self
    by_cases typed : kind = .type
    · exact typed ▸ congrArg _ value
    rw [settled, if_neg typed, value, settledProperty, kept typed]
    exact (shaped.areTerms typed).2
  | _ => rfl

/-- A parsed tree is its own settled tree exactly if all of it is kept. -/
theorem settled_eq_self_iff {node : Node} (shaped : node.Everywhere Shaped) :
    settled compact node = node ↔ node.Everywhere (Kept compact) := by
  constructor
  · intro same
    have closed (node : Node) (h : node.Everywhere Shaped ∧ settled compact node = node) :
        ∀ part ∈ node.inside, part.Everywhere Shaped ∧ settled compact part = part :=
      fun part mem => ⟨h.1.of_mem_inside mem, (kept_of_settled h.1.here h.2).2 part mem⟩
    exact (Everywhere.of_closed closed ⟨shaped, same⟩).mono fun part h =>
      (kept_of_settled h.1.here h.2).1
  · intro kept
    induction kept with
    | intro here _ ih =>
      exact settled_of_kept shaped.here here fun part mem => ih part mem (shaped.of_mem_inside mem)

end Node

end HclSyntax
