import HclSyntax.Node.Listing
import HclSyntax.Node.View
import HclSyntax.Node.Visit

/-!
# `HclSyntax.Proofs.Node.Walk`: equality, walks and listings show the same

Two nodes are equal when their views are. A walk lists the same attributes flat, each with its depth,
and a listing writes them down as nested records. `Node.equality_walk_listing` says that the three
tell nodes apart in the same way, but for the second label of a block, which is not listed.

Both are functions of the view (`Node.walk_eq`, `Node.listing_eq`), so what is to be shown is that the
view can be told from them. For the walk this is `View.walk_append_inj`: what is below a node ends
where the walk comes back to its depth or a smaller one. A node without children and one with an empty
list of them have the same walk below them, and are told apart by the mark for leaves.
-/

set_option autoImplicit false

namespace HclSyntax

/-- What a walk shows of one node: its depth, its attributes, and whether it has no children, which is
not the same as an empty list of them. -/
structure Visit where
  depth : Nat
  attributes : Attributes
  isLeaf : Bool
deriving DecidableEq, Repr

/-- The attributes without the second label of a block. -/
def Attributes.unlabelled (attributes : Attributes) : Attributes :=
  { attributes with typeLabel := none }

/-- The visit without the second label of a block. -/
def Visit.unlabelled (visit : Visit) : Visit :=
  { visit with attributes := visit.attributes.unlabelled }

namespace Node

/-- What a walk shows of a node at some depth. -/
def shown (visit : Nat × Node) : Visit :=
  ⟨visit.1, visit.2.attributes, visit.2.children.isNone⟩

/-- What a walk over a node and everything below it shows, in the order of the visits. -/
def walk (node : Node) : List Visit :=
  node.visits.map shown

end Node

/-! ### Walks -/

namespace View

mutual

/-- The walk over a view. -/
def walk (depth : Nat) : View → List Visit
  | .leaf attributes => [⟨depth, attributes, true⟩]
  | .branch attributes children => ⟨depth, attributes, false⟩ :: walkAll (depth + 1) children

/-- The walk over some views, one after the other. -/
def walkAll (depth : Nat) : List View → List Visit
  | [] => []
  | view :: rest => walk depth view ++ walkAll depth rest

end

/-- A walk comes to a node first and then to its children, one level deeper. -/
theorem walk_ofChildren (depth : Nat) (attributes : Attributes) (children : Option (List View)) :
    walk depth (.ofChildren attributes children)
      = ⟨depth, attributes, children.isNone⟩ :: walkAll (depth + 1) (children.getD []) := by
  cases children <;> rfl

/-- A walk starts at the depth it is asked for. -/
theorem head?_walk_append (depth : Nat) (view : View) (rest : List Visit) :
    ∀ visit ∈ (walk depth view ++ rest).head?, visit.depth = depth := by
  cases view <;> simp [walk]

/-- A walk over some views starts at their depth, or what follows it starts at once. -/
theorem head?_walkAll_append {depth : Nat} {views : List View} {rest : List Visit}
    (back : ∀ visit ∈ rest.head?, visit.depth < depth) :
    ∀ visit ∈ (walkAll depth views ++ rest).head?, visit.depth < depth + 1 := by
  intro visit first
  cases views with
  | nil => exact Nat.lt_succ_of_lt (back visit first)
  | cons view others =>
    rw [walkAll, List.append_assoc] at first
    exact Nat.lt_succ_of_le (Nat.le_of_eq (head?_walk_append depth view _ visit first))

mutual

/-- A view can be told from its walk, and from where the walk ends, when what follows is no deeper
than the view. -/
theorem walk_append_inj {depth : Nat} {rest others : List Visit}
    (hrest : ∀ visit ∈ rest.head?, visit.depth < depth + 1)
    (hothers : ∀ visit ∈ others.head?, visit.depth < depth + 1) :
    ∀ a b : View, walk depth a ++ rest = walk depth b ++ others → a = b ∧ rest = others
  | .leaf a, .leaf b, same => by
    simpa [walk] using same
  | .branch a children, .branch b siblings, same => by
    simp only [walk, List.cons_append, List.cons.injEq, Visit.mk.injEq, true_and, and_true] at same
    obtain ⟨rfl, below⟩ := same
    obtain ⟨rfl, rfl⟩ := walkAll_append_inj hrest hothers children siblings below
    exact ⟨rfl, rfl⟩
  | .leaf _, .branch _ _, same | .branch _ _, .leaf _, same => by
    simp [walk] at same

/-- Some views can be told from their walk when what follows is less deep than they are. -/
theorem walkAll_append_inj {depth : Nat} {rest others : List Visit}
    (hrest : ∀ visit ∈ rest.head?, visit.depth < depth)
    (hothers : ∀ visit ∈ others.head?, visit.depth < depth) :
    ∀ as bs : List View, walkAll depth as ++ rest = walkAll depth bs ++ others →
      as = bs ∧ rest = others
  | [], [], same => ⟨rfl, same⟩
  | [], b :: bs, same => by
    -- One walk has come back to a smaller depth, and the other starts a view.
    rw [walkAll, walkAll, List.nil_append, List.append_assoc] at same
    rw [same] at hrest
    obtain ⟨visit, first⟩ : ∃ visit, visit ∈ (walk depth b ++ (walkAll depth bs ++ others)).head? := by
      cases b <;> exact ⟨_, rfl⟩
    have less := hrest visit first
    rw [head?_walk_append depth b _ visit first] at less
    exact absurd less (Nat.lt_irrefl depth)
  | a :: as, [], same => by
    rw [walkAll, walkAll, List.nil_append, List.append_assoc] at same
    rw [← same] at hothers
    obtain ⟨visit, first⟩ : ∃ visit, visit ∈ (walk depth a ++ (walkAll depth as ++ rest)).head? := by
      cases a <;> exact ⟨_, rfl⟩
    have less := hothers visit first
    rw [head?_walk_append depth a _ visit first] at less
    exact absurd less (Nat.lt_irrefl depth)
  | a :: as, b :: bs, same => by
    rw [walkAll, walkAll, List.append_assoc, List.append_assoc] at same
    obtain ⟨rfl, more⟩ := walk_append_inj (head?_walkAll_append hrest)
      (head?_walkAll_append hothers) a b same
    obtain ⟨rfl, rfl⟩ := walkAll_append_inj hrest hothers as bs more
    exact ⟨rfl, rfl⟩

end

/-- Views with the same walk are the same. -/
theorem walk_inj {depth : Nat} {a b : View} : walk depth a = walk depth b ↔ a = b := by
  refine ⟨fun same => ?_, fun same => same ▸ rfl⟩
  have nothing : ∀ visit ∈ ([] : List Visit).head?, visit.depth < depth + 1 := by simp
  exact (walk_append_inj nothing nothing a b (by simpa using same)).1

end View

/-! ### Listings -/

/-- The kind that has this word. -/
def Kind.ofWord? (word : Text) : Option Kind :=
  [root, block, comment, multilineComment, string, stringProperty, unquotedString,
    unquotedExpression, unquotedExpressionProperty, list, listProperty, map, mapProperty, forLoop,
    function, heredoc, heredocProperty, primitiveType, objectType, mapType, listType, setType,
    tupleType, typeProperty, numberOrBool, mathSymbol].find? fun kind => kind.word = word

/-- No two kinds have the same word. -/
theorem Kind.ofWord?_word (kind : Kind) : ofWord? kind.word = some kind := by
  cases kind <;> decide

/-- Different kinds have different words. -/
theorem Kind.word_injective {a b : Kind} (h : a.word = b.word) : a = b := by
  have same := congrArg ofWord? h
  rwa [ofWord?_word, ofWord?_word, Option.some.injEq] at same

/-- The value of a field of a record. -/
def Data.field? (key : Text) : Data → Option Data
  | .record fields => fields.lookup key
  | _ => none

namespace Attributes

variable {a b : Attributes} {children others : Option (List Data)}

/-- The record of some attributes with these children. -/
def record (attributes : Attributes) (children : Option (List Data)) : Data :=
  .record (("kind".toList, .text attributes.kind.word)
    :: (attributes.name.map fun name => ("name".toList, Data.text name)).toList
    ++ (attributes.value.map fun value => ("value".toList, Data.text value)).toList
    ++ (children.map fun items => ("children".toList, Data.list items)).toList)

/-- Each attribute but the second label is a field of the record, and so are the children. -/
theorem field?_record :
    (a.record children).field? "kind".toList = some (.text a.kind.word)
      ∧ (a.record children).field? "name".toList = a.name.map .text
      ∧ (a.record children).field? "value".toList = a.value.map .text
      ∧ (a.record children).field? "children".toList = children.map .list := by
  obtain ⟨kind, name, value, label⟩ := a
  cases name <;> cases value <;> cases children <;> exact ⟨rfl, rfl, rfl, rfl⟩

/-- The record of a node tells its attributes, but for the second label, and its children. -/
theorem record_inj :
    a.record children = b.record others ↔ a.unlabelled = b.unlabelled ∧ children = others := by
  constructor
  · intro same
    -- The fields of a record can be looked up by their names.
    obtain ⟨kind, name, value, items⟩ := @field?_record a children
    obtain ⟨kind', name', value', items'⟩ := @field?_record b others
    rw [← same] at kind' name' value' items'
    have texts := Option.map_injective (fun _ _ => Data.text.inj : Function.Injective Data.text)
    have lists := Option.map_injective (fun _ _ => Data.list.inj : Function.Injective Data.list)
    have sameKind : a.kind = b.kind :=
      Kind.word_injective (Data.text.inj (Option.some.inj (kind.symm.trans kind')))
    have sameName : a.name = b.name := texts (name.symm.trans name')
    have sameValue : a.value = b.value := texts (value.symm.trans value')
    exact ⟨by rw [unlabelled, unlabelled, sameKind, sameName, sameValue],
      lists (items.symm.trans items')⟩
  · rintro ⟨same, rfl⟩
    rw [unlabelled, unlabelled, Attributes.mk.injEq] at same
    obtain ⟨kind, name, value, -⟩ := same
    rw [record, record, kind, name, value]

end Attributes

namespace View

mutual

/-- The view without the second labels of blocks. -/
def unlabelled : View → View
  | .leaf attributes => .leaf attributes.unlabelled
  | .branch attributes children => .branch attributes.unlabelled (allUnlabelled children)

/-- Some views without the second labels of blocks. -/
def allUnlabelled : List View → List View
  | [] => []
  | view :: rest => unlabelled view :: allUnlabelled rest

end

mutual

/-- A view as plain data. -/
def listing : View → Data
  | .leaf attributes => attributes.record none
  | .branch attributes children => attributes.record (some (listings children))

/-- Some views as plain data. -/
def listings : List View → List Data
  | [] => []
  | view :: rest => listing view :: listings rest

end

/-- A listing is the record of a node with the listings of its children. -/
theorem listing_ofChildren (attributes : Attributes) (children : Option (List View)) :
    listing (.ofChildren attributes children) = attributes.record (children.map listings) := by
  cases children <;> rfl

mutual

/-- The second labels may be left out of the view or of its walk. -/
theorem walk_unlabelled (depth : Nat) : ∀ view : View,
    walk depth view.unlabelled = (walk depth view).map Visit.unlabelled
  | .leaf _ => rfl
  | .branch _ children => by
    rw [unlabelled, walk, walk, List.map_cons, walkAll_allUnlabelled (depth + 1) children]
    rfl

/-- The same for the walk over several views. -/
theorem walkAll_allUnlabelled (depth : Nat) : ∀ views : List View,
    walkAll depth (allUnlabelled views) = (walkAll depth views).map Visit.unlabelled
  | [] => rfl
  | view :: rest => by
    rw [allUnlabelled, walkAll, walkAll, List.map_append, walk_unlabelled depth view,
      walkAll_allUnlabelled depth rest]

end

mutual

/-- Views are listed alike exactly when they differ in second labels only. -/
theorem listing_inj : ∀ a b : View, listing a = listing b ↔ a.unlabelled = b.unlabelled
  | .leaf a, .leaf b => by
    simp [listing, unlabelled, Attributes.record_inj]
  | .branch a children, .branch b siblings => by
    simp [listing, unlabelled, Attributes.record_inj, listings_inj children siblings]
  | .leaf _, .branch _ _ | .branch _ _, .leaf _ => by
    simp [listing, unlabelled, Attributes.record_inj]

/-- The same for the listings of several views. -/
theorem listings_inj : ∀ as bs : List View,
    listings as = listings bs ↔ allUnlabelled as = allUnlabelled bs
  | [], [] => by simp [listings, allUnlabelled]
  | [], _ :: _ | _ :: _, [] => by simp [listings, allUnlabelled]
  | a :: as, b :: bs => by
    simp [listings, allUnlabelled, listing_inj a b, listings_inj as bs]

end

end View

/-! ### The view of a node -/

namespace Node

/-- A node shows the views of its children exactly when it has children. -/
theorem isNone_childViews : ∀ node : Node, node.childViews.isNone = node.children.isNone
  | .property kind _ value => by
    unfold childViews children
    split
    · exact isNone_childViews value
    · rfl
  | .root _ | .block _ _ | .unquotedExpression _ | .list _ | .map _ | .function _ _ | .objectType _
  | .collectionType _ _ | .tupleType _ | .comment _ _ | .multilineComment _ | .string _
  | .unquotedString _ | .numberOrBool _ | .mathSymbol _ | .forLoop _ | .heredoc _
  | .primitiveType _ _ => rfl

/-- A node and what is below it are walked over like its view. -/
theorem walk_cons {depth : Nat} {node : Node}
    (below : (node.visitsBelow (depth + 1)).map shown
      = View.walkAll (depth + 1) (node.childViews.getD [])) :
    ((depth, node) :: node.visitsBelow (depth + 1)).map shown
      = View.walk depth (.ofChildren node.attributes node.childViews) := by
  rw [View.walk_ofChildren, isNone_childViews, List.map_cons, below]
  rfl

mutual

/-- What is below a node is walked over like the views of its children. -/
theorem map_shown_visitsBelow (depth : Nat) : ∀ node : Node,
    (node.visitsBelow depth).map shown = View.walkAll depth (node.childViews.getD [])
  | .collectionType _ element => by
    have alone := walk_cons (map_shown_visitsBelow (depth + 1) element)
    simpa [visitsBelow, childViews, View.walkAll] using alone
  | .property kind _ value => by
    unfold visitsBelow childViews
    split
    · exact map_shown_visitsBelow depth value
    · have alone := walk_cons (map_shown_visitsBelow (depth + 1) value)
      simpa [View.walkAll] using alone
  | .root declarations => map_shown_visitsOf depth declarations
  | .block _ declarations => map_shown_visitsOf depth declarations
  | .unquotedExpression terms => map_shown_visitsOf depth terms
  | .list elements => map_shown_visitsOf depth elements
  | .map entries => map_shown_visitsOf depth entries
  | .function _ arguments => map_shown_visitsOf depth arguments
  | .objectType members => map_shown_visitsOf depth members
  | .tupleType elements => map_shown_visitsOf depth elements
  | .comment _ _ | .multilineComment _ | .string _ | .unquotedString _ | .numberOrBool _
  | .mathSymbol _ | .forLoop _ | .heredoc _ | .primitiveType _ _ => rfl

/-- The same for the visits of several nodes. -/
theorem map_shown_visitsOf (depth : Nat) : ∀ nodes : List Node,
    (visitsOf depth nodes).map shown = View.walkAll depth (views nodes)
  | [] => rfl
  | node :: rest => by
    rw [visitsOf, List.map_append, walk_cons (map_shown_visitsBelow (depth + 1) node),
      map_shown_visitsOf depth rest]
    rfl

end

/-- A node is walked over like its view. -/
theorem walk_eq (node : Node) : node.walk = View.walk 0 node.view :=
  walk_cons (map_shown_visitsBelow 1 node)

mutual

/-- The children of a node are listed like their views. -/
theorem childListings_eq : ∀ node : Node,
    node.childListings = node.childViews.map View.listings
  | .collectionType _ element => by
    rw [childListings, childViews, childListings_eq element, Option.map_some, View.listings,
      View.listing_ofChildren]
    rfl
  | .property kind _ value => by
    unfold childListings childViews
    split
    · exact childListings_eq value
    · rw [childListings_eq value, Option.map_some, View.listings, View.listing_ofChildren]
      rfl
  | .root declarations => congrArg some (listings_eq declarations)
  | .block _ declarations => congrArg some (listings_eq declarations)
  | .unquotedExpression terms => congrArg some (listings_eq terms)
  | .list elements => congrArg some (listings_eq elements)
  | .map entries => congrArg some (listings_eq entries)
  | .function _ arguments => congrArg some (listings_eq arguments)
  | .objectType members => congrArg some (listings_eq members)
  | .tupleType elements => congrArg some (listings_eq elements)
  | .comment _ _ | .multilineComment _ | .string _ | .unquotedString _ | .numberOrBool _
  | .mathSymbol _ | .forLoop _ | .heredoc _ | .primitiveType _ _ => rfl

/-- The same for the listings of several nodes. -/
theorem listings_eq : ∀ nodes : List Node, listings nodes = View.listings (views nodes)
  | [] => rfl
  | node :: rest => by
    rw [listings, views, View.listings, View.listing_ofChildren, childListings_eq node,
      listings_eq rest]
    rfl

end

/-- A node is listed like its view. -/
theorem listing_eq (node : Node) : node.listing = node.view.listing := by
  rw [listing, view, View.listing_ofChildren, childListings_eq]
  rfl

/-- Two nodes are equal exactly when their walks show the same, and are listed alike exactly when the
walks show the same but for the second labels of blocks. -/
theorem equality_walk_listing (a b : Node) :
    ((a == b) = true ↔ a.walk = b.walk)
      ∧ (a.listing = b.listing ↔ a.walk.map Visit.unlabelled = b.walk.map Visit.unlabelled) := by
  constructor
  · rw [walk_eq, walk_eq, View.walk_inj]
    exact View.agrees_iff a.view b.view
  · rw [listing_eq, listing_eq, View.listing_inj, walk_eq, walk_eq, ← View.walk_unlabelled,
      ← View.walk_unlabelled, View.walk_inj]

/-- Nothing is below either of these properties, but only the first one has children. -/
example : (Node.property .list (.bare []) (.list [])).walk
    ≠ (Node.property .list (.bare []) (.string [])).walk := by decide

end Node

end HclSyntax
