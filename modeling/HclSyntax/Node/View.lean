import HclSyntax.Node.Basic

/-!
# `HclSyntax.Node.View`: what the attributes of a tree show

The attributes of a node leave some of it out: whether a name was quoted, the marker of a comment,
the parts of a heredoc's head. `Node.view` is the tree of what they do show, one `Attributes` record
per visited node, and two nodes are equal (`==`) when their views are the same.

`View.agrees_iff` says that the comparison decides equality of views.
-/

set_option autoImplicit false

namespace HclSyntax

/-- The attributes of one node that equality looks at, without its children. -/
structure Attributes where
  kind : Kind
  name : Option Text
  value : Option Text
  typeLabel : Option Text
deriving DecidableEq, Repr

/-- The attributes of a node. -/
def Node.attributes (node : Node) : Attributes :=
  ⟨node.kind, node.name, node.value, node.typeLabel⟩

/-- A tree of attributes. A node without children differs from one with an empty list of them. -/
inductive View where
  | leaf (attributes : Attributes)
  | branch (attributes : Attributes) (children : List View)

/-- The view with these children, if there are any. -/
def View.ofChildren (attributes : Attributes) : Option (List View) → View
  | none => .leaf attributes
  | some children => .branch attributes children

namespace Node

mutual

/-- The views of the children of a node. -/
def childViews : Node → Option (List View)
  | .root declarations => some (views declarations)
  | .block _ declarations => some (views declarations)
  | .unquotedExpression terms => some (views terms)
  | .list elements => some (views elements)
  | .map entries => some (views entries)
  | .function _ arguments => some (views arguments)
  | .objectType members => some (views members)
  | .collectionType _ element => some [.ofChildren element.attributes (childViews element)]
  | .tupleType elements => some (views elements)
  | .property kind _ value =>
    if kind.showsEntries then childViews value
    else some [.ofChildren value.attributes (childViews value)]
  | _ => none

/-- The views of some nodes. -/
def views : List Node → List View
  | [] => []
  | node :: rest => .ofChildren node.attributes (childViews node) :: views rest

end

/-- What the attributes of a node and of everything below it show. -/
def view (node : Node) : View :=
  .ofChildren node.attributes (childViews node)

end Node

namespace View

mutual

/-- Whether two views are the same. -/
def agrees : View → View → Bool
  | .leaf a, .leaf b => a = b
  | .branch a children, .branch b others => a = b && allAgree children others
  | _, _ => false

/-- Whether two lists of views are the same. -/
def allAgree : List View → List View → Bool
  | [], [] => true
  | view :: rest, other :: others => agrees view other && allAgree rest others
  | _, _ => false

end

mutual

/-- The comparison of views decides their equality. -/
theorem agrees_iff : ∀ a b : View, agrees a b = true ↔ a = b
  | .leaf a, .leaf b => by simp [agrees]
  | .leaf _, .branch _ _ => by simp [agrees]
  | .branch _ _, .leaf _ => by simp [agrees]
  | .branch a children, .branch b others => by
    simp [agrees, allAgree_iff children others]

/-- The comparison of lists of views decides their equality. -/
theorem allAgree_iff : ∀ a b : List View, allAgree a b = true ↔ a = b
  | [], [] => by simp [allAgree]
  | [], _ :: _ => by simp [allAgree]
  | _ :: _, [] => by simp [allAgree]
  | view :: rest, other :: others => by
    simp [allAgree, agrees_iff view other, allAgree_iff rest others]

end

instance : DecidableEq View := fun a b =>
  if h : agrees a b = true then .isTrue ((agrees_iff a b).mp h)
  else .isFalse fun same => h ((agrees_iff a b).mpr same)

end View

/-- Nodes are compared by what their attributes show. -/
instance : BEq Node := ⟨fun a b => a.view.agrees b.view⟩

end HclSyntax
