import HclSyntax.Proofs.Parse.WellFormed
import HclSyntax.Proofs.RoundTrip.SettledShape
import HclSyntax.Proofs.RoundTrip.Unlabelled

/-!
# `HclSyntax.Proofs.RoundTrip.Resolved`: settled trees

`Node.settled` takes away what a printed form does not tell: a settled tree has no text without quotes
that is a boolean, no sign in front of a number without one, and no block with a label that has the
name `dynamic` (`Node.everywhere_settled`). Where such a tree is `Told` everywhere, it is `Faithful`
everywhere (`Document.faithful_settled`).
-/

set_option autoImplicit false

namespace HclSyntax

open Grammar

namespace Node

/-- Nothing in a node is printed as something else. -/
def Resolved : Node → Prop
  | .block header _ => header.becomesDynamic = false
  | .unquotedString text => ¬ IsBoolean text
  | .unquotedExpression terms => bindsSign true terms = false
  | _ => True

variable {compact : Bool}

/-! ### Settled nodes -/

/-- A settled header is not read as that of a dynamic block. -/
theorem becomesDynamic_settled (header : BlockHeader) : header.settled.becomesDynamic = false := by
  unfold BlockHeader.settled
  split
  · simp [BlockHeader.becomesDynamic]
  · next other =>
    -- A header that becomes one of a dynamic block has a label.
    rw [← Bool.not_eq_true]
    intro becomes
    have labelled := becomes
    rw [BlockHeader.becomesDynamic, Bool.and_eq_true, Option.isSome_iff_exists] at labelled
    obtain ⟨-, label, found⟩ := labelled
    exact other label becomes found

/-- Joining signs leaves the first term, or makes it a number with a sign. -/
theorem head?_joinSigns (first : Bool) (term : Node) (rest : List Node) :
    (joinSigns first (term :: rest)).head? = some term
      ∨ ∃ text, (joinSigns first (term :: rest)).head? = some (.numberOrBool ('-' :: text)) := by
  cases rest with
  | nil => exact .inl rfl
  | cons next rest =>
    rw [joinSigns]
    split
    · next binds =>
      simp only [Bool.and_eq_true] at binds
      obtain ⟨text, rfl, -⟩ := eq_number binds.2
      exact .inr ⟨text, rfl⟩
    · exact .inl rfl

/-- Behind joining no sign is left that could be joined. -/
theorem bindsSign_joinSigns (first : Bool) (terms : List Node) :
    bindsSign first (joinSigns first terms) = false := by
  fun_induction joinSigns first terms with
  | case1 first term next rest binds ih =>
    simp only [Bool.and_eq_true] at binds
    obtain ⟨text, rfl, -⟩ := eq_number binds.2
    simpa [bindsSign, negated, isMinus, isSymbol] using ih
  | case2 first term next rest binds ih =>
    rw [bindsSign, ih, Bool.or_false, ← Bool.not_eq_true]
    intro joins
    rw [Bool.and_eq_true] at joins
    -- The next term is still the same, or a number that has its sign already.
    rcases head?_joinSigns term.isSymbol next rest with head | ⟨text, head⟩
    · rw [head] at joins
      exact binds (by simpa using joins)
    · rw [head] at joins
      simp [isUnsigned] at joins
  | case3 first terms short =>
    rcases terms with _ | ⟨term, _ | ⟨next, rest⟩⟩
    · rfl
    · simp [bindsSign]
    · exact absurd rfl (short term next rest)

section Everywhere

variable {holds : Node → Prop}

/-- Joining signs makes no terms but numbers. -/
theorem forall_mem_joinSigns (numbers : ∀ text, holds (.numberOrBool text)) {first : Bool}
    {terms : List Node} (h : ∀ term ∈ terms, holds term) :
    ∀ term ∈ joinSigns first terms, holds term := by
  fun_induction joinSigns first terms with
  | case1 first term next rest binds ih =>
    simp only [Bool.and_eq_true] at binds
    obtain ⟨text, rfl, -⟩ := eq_number binds.2
    exact List.forall_mem_cons.mpr ⟨numbers _, ih fun other mem => h other (by simp [mem])⟩
  | case2 first term next rest binds ih =>
    obtain ⟨here, others⟩ := List.forall_mem_cons.mp h
    exact List.forall_mem_cons.mpr ⟨here, ih others⟩
  | case3 => exact h

/-- What holds everywhere in the terms of a property holds everywhere in the property. -/
theorem everywhere_propertyOfTerms {name : Name} {terms : List Node}
    (property : ∀ kind value, holds (.property kind name value))
    (expression : holds (.unquotedExpression terms)) (h : ∀ term ∈ terms, term.Everywhere holds) :
    (propertyOfTerms name terms).Everywhere holds := by
  have single {kind : PropertyKind} {value : Node} (inside : value.Everywhere holds) :
      (Node.property kind name value).Everywhere holds :=
    .intro (property _ _) fun part mem => List.mem_singleton.mp mem ▸ inside
  unfold propertyOfTerms
  split
  case h_8 => exact single (.intro expression h)
  all_goals exact single (h _ List.mem_cons_self)

end Everywhere

mutual

/-- A type has nothing in it that is not in the value which is printed as it. -/
theorem CastsTo.everywhere : ∀ {node type : Node}, CastsTo compact node type →
    node.Everywhere Resolved → type.Everywhere Resolved
  | _, _, .bare _, _ | _, _, .quoted _, _ => .intro trivial nofun
  | _, _, .collection inside, h => .intro trivial fun _ mem =>
    List.mem_singleton.mp mem ▸ inside.everywhere (h.of_mem_inside List.mem_cons_self)
  | _, _, .object _, h => .intro trivial fun _ mem =>
    (h.of_mem_inside List.mem_cons_self).of_mem_inside mem
  | _, _, .tuple _ inside, h => .intro trivial
    (inside.everywhere fun _ mem => (h.of_mem_inside List.mem_cons_self).of_mem_inside mem)

/-- The same for several values. -/
theorem CastAll.everywhere : ∀ {nodes types : List Node}, CastAll compact nodes types →
    (∀ node ∈ nodes, node.Everywhere Resolved) → ∀ type ∈ types, type.Everywhere Resolved
  | _, _, .nil, _ => nofun
  | _, _, .cons first others, h => by
    obtain ⟨here, behind⟩ := List.forall_mem_cons.mp h
    exact List.forall_mem_cons.mpr ⟨first.everywhere here, others.everywhere behind⟩

end

/-- The terms of a settled value leave no sign to be joined. -/
theorem bindsSign_terms {value : Node} (h : value.Everywhere Resolved) :
    bindsSign true value.terms = false := by
  cases value with
  | unquotedExpression terms => exact h.here
  | _ => simp [terms, bindsSign]

mutual

/-- Nothing in a settled tree is printed as something else. -/
theorem everywhere_settled : ∀ node : Node, (settled compact node).Everywhere Resolved
  | .root declarations => .intro trivial (everywhere_settledAll declarations)
  | .block header declarations =>
    .intro (becomesDynamic_settled header) (everywhere_settledAll declarations)
  | .comment style text => by
    rw [settled]
    split <;> exact .intro trivial nofun
  | .unquotedString text => by
    rw [settled]
    split
    · exact .intro trivial nofun
    · next notBoolean => exact .intro notBoolean nofun
  | .unquotedExpression terms => by
    have joined := @forall_mem_joinSigns (Everywhere Resolved) (fun _ => .intro trivial nofun) true _
      (everywhere_settledAll terms)
    rw [settled]
    -- What joining leaves is a number, or an expression without a sign in front of one.
    unfold ofJoined
    split
    · next same => exact joined _ (same ▸ List.mem_cons_self)
    · exact .intro (bindsSign_joinSigns true _) joined
  | .list elements => .intro trivial (everywhere_settledAll elements)
  | .map entries => .intro trivial (everywhere_settledAll entries)
  | .function name arguments => .intro trivial (everywhere_settledAll arguments)
  | .objectType members => .intro trivial (everywhere_settledAll members)
  | .collectionType collection element => .intro trivial fun part mem =>
    List.mem_singleton.mp mem ▸ everywhere_settled element
  | .tupleType elements => .intro trivial (everywhere_settledAll elements)
  | .property kind name value => by
    have inside := everywhere_settled value
    rw [settled]
    split
    · exact .intro trivial fun part mem => List.mem_singleton.mp mem ▸ inside
    -- A value that is printed as a type is one now, and its parts were settled before.
    unfold settledProperty
    split
    · next type found =>
      unfold termsAsType? at found
      split at found
      · next term single =>
        have cast := castsTo_of_asType? found
        have here := everywhere_of_mem_terms inside (single ▸ List.mem_cons_self)
        exact .intro trivial fun part mem => List.mem_singleton.mp mem ▸ cast.everywhere here
      · cases found
    · exact everywhere_propertyOfTerms (fun _ _ => trivial) (bindsSign_terms inside)
        fun term => everywhere_of_mem_terms inside
  | .multilineComment _ | .mathSymbol _ | .heredoc _ | .forLoop _ | .string _ | .numberOrBool _
  | .primitiveType _ _ => .intro trivial nofun

/-- The same for several nodes. -/
theorem everywhere_settledAll : ∀ nodes : List Node,
    ∀ part ∈ settledAll compact nodes, part.Everywhere Resolved
  | [] => nofun
  | node :: rest => List.forall_mem_cons.mpr ⟨everywhere_settled node, everywhere_settledAll rest⟩

end

end Node

namespace Grammar

open Node

variable {compact : Bool}

/-! ### Settled trees are told -/

/-- A property that is no type is made of the terms of an expression. -/
theorem Shaped.areTerms {kind : PropertyKind} {name : Name} {value : Node}
    (h : Shaped (.property kind name value)) (notType : kind ≠ .type) :
    AreTerms false value.terms ∧ propertyOfTerms name value.terms = .property kind name value := by
  -- Of all shapes only a declaration is such a property.
  generalize same : Node.property kind name value = node at h
  cases h with
  | declaration h =>
    cases h with
    | comment comment => exact absurd comment (same ▸ id)
    | block => cases same
    | @property called terms _ areTerms =>
      obtain ⟨_, _, shape, -, parts, -⟩ := areTerms.propertyOfTerms_eq called
      obtain ⟨rfl, rfl, rfl⟩ := Node.property.inj (same.trans shape)
      rw [parts]
      exact ⟨areTerms, rfl⟩
    | typed => exact absurd (Node.property.inj same).1 notType
  | comment comment => exact absurd comment (same ▸ id)
  | member member =>
    cases member with
    | comment comment => exact absurd comment (same ▸ id)
    | typed => exact absurd (Node.property.inj same).1 notType
  | type h => subst same; cases h
  | operand h => subst same; cases h
  | _ => cases same

/-- What tells a settled node from others tells it from all others. -/
theorem faithful_of_told {node : Node} (shaped : Shaped node) (told : node.Everywhere (Told compact))
    (resolved : node.Everywhere Resolved) : node.Everywhere (Faithful compact) := by
  induction told with
  | @intro node here inside ih =>
    refine .intro ?_ fun part mem => ih part mem (shaped.inside part mem) (resolved.of_mem_inside mem)
    cases node with
    | block => exact ⟨here, resolved.here⟩
    | unquotedString => exact resolved.here
    | unquotedExpression => exact ⟨resolved.here, here⟩
    | property kind name value =>
      obtain ⟨ends, closed⟩ := here
      have told := inside value List.mem_cons_self
      exact ⟨ends, fun notType =>
        ⟨untyped_of_opensType (shaped.areTerms notType).1 told (closed notType).1,
          unlabelled_of_opensBody (shaped.areTerms notType).1 told (closed notType).2⟩⟩
    | comment | string | list | map | function => exact here
    | _ => trivial

end Grammar

/-- A settled document that is told by its printed form is told from all others. -/
theorem Document.faithful_settled {compact : Bool} {document : Document}
    (inside : ∀ node ∈ document.declarations, IsDeclaration node)
    (told : (document.settled compact).root.Everywhere (Told compact)) :
    (document.settled compact).root.Everywhere (Faithful compact) :=
  faithful_of_told (.root (Document.isDeclaration_settled inside)) told
    (.intro trivial (Node.everywhere_settledAll document.declarations))

end HclSyntax
