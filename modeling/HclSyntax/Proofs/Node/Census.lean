import HclSyntax.Proofs.Node.Walk

/-!
# `HclSyntax.Proofs.Node.Census`: the nodes of a listing

`Data.nodesOf` counts in plain data the records that say they are a node of some kind, at any depth.
`Node.nodesOf_listing` shows that in the listing of a node these are as many as a walk over the node
comes to. Walk and listing are both functions of the view, so it is on views that they are compared.
-/

set_option autoImplicit false

namespace HclSyntax

namespace Data

/-- The text in the field for the kind. -/
def kindWord? (data : Data) : Option Text :=
  match data.field? "kind".toList with
  | some (.text word) => some word
  | _ => none

/-- The kind of a node stands in a field of its record. -/
theorem kindWord?_eq_some_iff {data : Data} {word : Text} :
    data.kindWord? = some word ↔ data.field? "kind".toList = some (.text word) := by
  rw [kindWord?]
  split <;> simp_all

mutual

/-- The number of records in some data, at any depth, that say they are of this kind. -/
def nodesOf (kind : Kind) : Data → Nat
  | .text _ | .number _ => 0
  | .list items => nodesOfItems kind items
  | .record fields =>
    (if (record fields).kindWord? = some kind.word then 1 else 0) + nodesOfFields kind fields

/-- The number of such records in the items of a list. -/
def nodesOfItems (kind : Kind) : List Data → Nat
  | [] => 0
  | item :: rest => nodesOf kind item + nodesOfItems kind rest

/-- The number of such records in the fields of a record. -/
def nodesOfFields (kind : Kind) : List (Text × Data) → Nat
  | [] => 0
  | (_, item) :: rest => nodesOf kind item + nodesOfFields kind rest

end

end Data

open Data

variable {kind : Kind}

/-- The record of some attributes is one node, and holds those of its children. -/
theorem Attributes.nodesOf_record (attributes : Attributes) (children : Option (List Data)) :
    (attributes.record children).nodesOf kind
      = (if attributes.kind = kind then 1 else 0) + nodesOfItems kind (children.getD []) := by
  have word : (attributes.record children).kindWord? = some attributes.kind.word :=
    kindWord?_eq_some_iff.mpr field?_record.1
  have same : some attributes.kind.word = some kind.word ↔ attributes.kind = kind :=
    ⟨fun same => Kind.word_injective (Option.some.inj same), fun same => same ▸ rfl⟩
  rw [record] at word ⊢
  simp only [nodesOf, word, same]
  -- The kind, the name and the value are texts.
  congr 1
  obtain ⟨_, name, value, _⟩ := attributes
  cases name <;> cases value <;> cases children <;> simp [nodesOfFields, nodesOf, nodesOfItems]

namespace View

mutual

/-- A view lists as many nodes of a kind as the walk over it comes to. -/
theorem nodesOf_listing (depth : Nat) : ∀ view : View,
    view.listing.nodesOf kind = ((walk depth view).map fun visit => visit.attributes.kind).count kind
  | .leaf attributes => by
    rw [listing, walk, attributes.nodesOf_record]
    simp [nodesOfItems, List.count_singleton]
  | .branch attributes children => by
    rw [listing, walk, attributes.nodesOf_record, Option.getD_some,
      nodesOfItems_listings (depth + 1) children, List.map_cons, List.count_cons, Nat.add_comm]
    simp

/-- The same for the listings of several nodes. -/
theorem nodesOfItems_listings (depth : Nat) : ∀ views : List View,
    nodesOfItems kind (listings views)
      = ((walkAll depth views).map fun visit => visit.attributes.kind).count kind
  | [] => rfl
  | view :: rest => by
    rw [listings, walkAll, nodesOfItems, List.map_append, List.count_append,
      nodesOf_listing depth view, nodesOfItems_listings depth rest]

end

end View

/-- A node is listed with as many nodes of a kind as a walk over it comes to. -/
theorem Node.nodesOf_listing (node : Node) :
    node.listing.nodesOf kind = (node.visits.map fun visit => visit.2.kind).count kind := by
  rw [listing_eq, View.nodesOf_listing 0, ← walk_eq, walk, List.map_map]
  rfl

end HclSyntax
