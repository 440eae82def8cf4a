import HclSyntax.Data.Basic
import HclSyntax.Node.Basic

/-!
# `HclSyntax.Node.Listing`: a tree as plain data

A node is listed as a record with its kind and, where it has them, its name, its value and the list
of its children, in this order. An empty list of children is listed, no children are not.
-/

set_option autoImplicit false

namespace HclSyntax.Node

/-- The record of a node with these children. -/
def record (node : Node) (children : Option (List Data)) : Data :=
  .record (("kind".toList, .text node.kind.word)
    :: (node.name.map fun name => ("name".toList, Data.text name)).toList
    ++ (node.value.map fun value => ("value".toList, Data.text value)).toList
    ++ (children.map fun items => ("children".toList, Data.list items)).toList)

mutual

/-- The listed children of a node. -/
def childListings : Node → Option (List Data)
  | .root declarations => some (listings declarations)
  | .block _ declarations => some (listings declarations)
  | .unquotedExpression terms => some (listings terms)
  | .list elements => some (listings elements)
  | .map entries => some (listings entries)
  | .function _ arguments => some (listings arguments)
  | .objectType members => some (listings members)
  | .collectionType _ element => some [element.record (childListings element)]
  | .tupleType elements => some (listings elements)
  | .property kind _ value =>
    if kind.showsEntries then childListings value
    else some [value.record (childListings value)]
  | _ => none

/-- The listings of some nodes. -/
def listings : List Node → List Data
  | [] => []
  | node :: rest => node.record (childListings node) :: listings rest

end

/-- A node and everything below it as plain data. -/
def listing (node : Node) : Data :=
  node.record (childListings node)

end HclSyntax.Node
