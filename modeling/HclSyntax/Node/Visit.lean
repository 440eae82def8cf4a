import HclSyntax.Node.Basic

/-!
# `HclSyntax.Node.Visit`: walking a tree

`Node.visits` lists a node and everything below it, each with its depth: parents before their
children, children in order. The children are those that `Node.children` shows, so below a list
property come the elements of the list and not the list.
-/

set_option autoImplicit false

namespace HclSyntax.Node

mutual

/-- Everything below a node, its children at the given depth. -/
def visitsBelow (depth : Nat) : Node → List (Nat × Node)
  | .root declarations => visitsOf depth declarations
  | .block _ declarations => visitsOf depth declarations
  | .unquotedExpression terms => visitsOf depth terms
  | .list elements => visitsOf depth elements
  | .map entries => visitsOf depth entries
  | .function _ arguments => visitsOf depth arguments
  | .objectType members => visitsOf depth members
  | .collectionType _ element => (depth, element) :: visitsBelow (depth + 1) element
  | .tupleType elements => visitsOf depth elements
  | .property kind _ value =>
    if kind.showsEntries then visitsBelow depth value
    else (depth, value) :: visitsBelow (depth + 1) value
  | _ => []

/-- Some nodes at the given depth, each followed by everything below it. -/
def visitsOf (depth : Nat) : List Node → List (Nat × Node)
  | [] => []
  | node :: rest => (depth, node) :: visitsBelow (depth + 1) node ++ visitsOf depth rest

end

/-- The node at depth zero and everything below it. -/
def visits (node : Node) : List (Nat × Node) :=
  (0, node) :: visitsBelow 1 node

end HclSyntax.Node
