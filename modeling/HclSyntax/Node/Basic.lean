import HclSyntax.Text.Basic

/-!
# `HclSyntax.Node.Basic`: the syntax tree of a template

A template is a sequence of declarations: blocks, properties and comments. A property gives a name a
value; values are strings, numbers, lists, maps, calls, heredocs, for expressions, type constraints
and unquoted expressions. Expressions are not evaluated, so an unquoted expression is a flat
sequence of terms and operator symbols.

The type `Node` holds every form. Not every tree is one a text can have (a `list` property may hold
a string here), and the printer and the views are total on all of them.

Every node answers the same few questions, the attributes: its `kind`, its `name`, its `value` and
its `children`. A property whose value is a list or a map shows the children of that value as its
own.
-/

set_option autoImplicit false

namespace HclSyntax

/-- The kinds of node. -/
inductive Kind where
  | root
  | block
  | comment
  | multilineComment
  | string
  | stringProperty
  | unquotedString
  | unquotedExpression
  | unquotedExpressionProperty
  | list
  | listProperty
  | map
  | mapProperty
  | forLoop
  | function
  | heredoc
  | heredocProperty
  | primitiveType
  | objectType
  | mapType
  | listType
  | setType
  | tupleType
  | typeProperty
  | numberOrBool
  | mathSymbol
deriving DecidableEq, Repr

/-- The word for a kind in listings. -/
def Kind.word : Kind → Text
  | .root => "root".toList
  | .block => "block".toList
  | .comment => "comment".toList
  | .multilineComment => "multiline_comment".toList
  | .string => "string".toList
  | .stringProperty => "string_property".toList
  | .unquotedString => "unquoted_string".toList
  | .unquotedExpression => "unquoted_expression".toList
  | .unquotedExpressionProperty => "unquoted_expression_property".toList
  | .list => "list".toList
  | .listProperty => "list_property".toList
  | .map => "map".toList
  | .mapProperty => "map_property".toList
  | .forLoop => "for_loop".toList
  | .function => "function".toList
  | .heredoc => "heredoc".toList
  | .heredocProperty => "heredoc_property".toList
  | .primitiveType => "primitive_type".toList
  | .objectType => "object_type".toList
  | .mapType => "map_type".toList
  | .listType => "list_type".toList
  | .setType => "set_type".toList
  | .tupleType => "tuple_type".toList
  | .typeProperty => "type_property".toList
  | .numberOrBool => "number_or_bool".toList
  | .mathSymbol => "math_symbol".toList

/-- The name of a block or property, and whether it is written in quotes. The text is unescaped. -/
structure Name where
  text : Text
  quoted : Bool
deriving DecidableEq, Repr

/-- A name written without quotes. -/
def Name.bare (text : Text) : Name := ⟨text, false⟩

/-- What stands before the body of a block. -/
structure BlockHeader where
  name : Name
  /-- Whether the word `dynamic` stands before the name. -/
  isDynamic : Bool
  /-- The first label after the name. -/
  label : Option Text
  /-- The second label after the name. -/
  typeLabel : Option Text
deriving DecidableEq, Repr

/-- The two markers of a comment that ends with its line. -/
inductive CommentStyle where
  | hash
  | doubleSlash
deriving DecidableEq, Repr

/-- The marker as it is written. -/
def CommentStyle.marker : CommentStyle → Text
  | .hash => "#".toList
  | .doubleSlash => "//".toList

/-- A for expression. Its parts are kept as text, without the white space around them. -/
structure ForLoop where
  opening : Char
  closing : Char
  /-- The names that the loop binds: one name, or two with a comma between them. -/
  bindings : Text
  collection : Text
  /-- What the loop yields. -/
  statements : Text
  /-- The condition with the word `if` before it, empty when there is none. -/
  condition : Text
deriving DecidableEq, Repr

/-- Everything between the brackets of a for expression. -/
def ForLoop.header (loop : ForLoop) : Text :=
  "for ".toList ++ loop.bindings ++ " in ".toList ++ loop.collection ++ " : ".toList
    ++ loop.statements ++ (if loop.condition.isEmpty then [] else ' ' :: loop.condition)

/-- A heredoc. The body is verbatim and ends with a line feed unless it is empty. -/
structure Heredoc where
  marker : Text
  /-- Whether a dash stands before the marker. -/
  indented : Bool
  body : Text
deriving DecidableEq, Repr

/-- The type constraints that hold for every element of a collection. -/
inductive CollectionType where
  | map
  | list
  | set
deriving DecidableEq, Repr

/-- The word a collection type is written with. -/
def CollectionType.word : CollectionType → Text
  | .map => "map".toList
  | .list => "list".toList
  | .set => "set".toList

/-- The kinds of property, named for the value they hold in a tree that was read from text. -/
inductive PropertyKind where
  | string
  | unquotedExpression
  | list
  | map
  | heredoc
  | type
deriving DecidableEq, Repr

/-- Whether a property of this kind shows the children of its value instead of the value. -/
def PropertyKind.showsEntries : PropertyKind → Bool
  | .list | .map => true
  | _ => false

/-- A node of the syntax tree. -/
inductive Node where
  /-- A whole template. -/
  | root (declarations : List Node)
  | block (header : BlockHeader) (declarations : List Node)
  /-- A comment that ends with its line; the text is what follows the marker. -/
  | comment (style : CommentStyle) (text : Text)
  /-- The text between the markers of a bracketed comment. -/
  | multilineComment (text : Text)
  /-- The unescaped content of a quoted string. -/
  | string (content : Text)
  | unquotedString (text : Text)
  | numberOrBool (text : Text)
  | mathSymbol (text : Text)
  /-- Terms and operator symbols in the order they are written. -/
  | unquotedExpression (terms : List Node)
  | list (elements : List Node)
  /-- A map; its entries are declarations. -/
  | map (entries : List Node)
  | forLoop (loop : ForLoop)
  /-- A call, or a parenthesized group when it has no name. -/
  | function (name : Option Text) (arguments : List Node)
  | heredoc (doc : Heredoc)
  | primitiveType (name : Text) (quoted : Bool)
  /-- An object type; its members are type properties and comments. -/
  | objectType (members : List Node)
  | collectionType (collection : CollectionType) (element : Node)
  | tupleType (elements : List Node)
  | property (kind : PropertyKind) (name : Name) (value : Node)

/-- A parsed template. -/
structure Document where
  declarations : List Node

/-- The document as one node. -/
def Document.root (document : Document) : Node :=
  .root document.declarations

/-- The kind of a property. -/
def PropertyKind.kind : PropertyKind → Kind
  | .string => .stringProperty
  | .unquotedExpression => .unquotedExpressionProperty
  | .list => .listProperty
  | .map => .mapProperty
  | .heredoc => .heredocProperty
  | .type => .typeProperty

/-- The kind of a collection type. -/
def CollectionType.kind : CollectionType → Kind
  | .map => .mapType
  | .list => .listType
  | .set => .setType

namespace Node

/-- The kind of a node. -/
def kind : Node → Kind
  | .root _ => .root
  | .block _ _ => .block
  | .comment _ _ => .comment
  | .multilineComment _ => .multilineComment
  | .string _ => .string
  | .unquotedString _ => .unquotedString
  | .numberOrBool _ => .numberOrBool
  | .mathSymbol _ => .mathSymbol
  | .unquotedExpression _ => .unquotedExpression
  | .list _ => .list
  | .map _ => .map
  | .forLoop _ => .forLoop
  | .function _ _ => .function
  | .heredoc _ => .heredoc
  | .primitiveType _ _ => .primitiveType
  | .objectType _ => .objectType
  | .collectionType collection _ => collection.kind
  | .tupleType _ => .tupleType
  | .property kind _ _ => kind.kind

/-- The name of a block, property or call. -/
def name : Node → Option Text
  | .block header _ => some header.name.text
  | .function name _ => name
  | .property _ name _ => some name.text
  | _ => none

/-- Whether the name is written in quotes. -/
def nameQuoted : Node → Bool
  | .block header _ => header.name.quoted
  | .property _ name _ => name.quoted
  | _ => false

/-- The text of a leaf, or the first label of a block. -/
def value : Node → Option Text
  | .block header _ => header.label
  | .comment _ text => some text
  | .multilineComment text => some text
  | .string content => some content
  | .unquotedString text => some text
  | .numberOrBool text => some text
  | .mathSymbol text => some text
  | .forLoop loop => some loop.header
  | .heredoc doc => some doc.body
  | .primitiveType name _ => some name
  | _ => none

/-- The second label of a block. -/
def typeLabel : Node → Option Text
  | .block header _ => header.typeLabel
  | _ => none

/-- The children of a node in order; nothing for the kinds that have none, which is not the same as
having an empty list of them. -/
def children : Node → Option (List Node)
  | .root declarations => some declarations
  | .block _ declarations => some declarations
  | .unquotedExpression terms => some terms
  | .list elements => some elements
  | .map entries => some entries
  | .function _ arguments => some arguments
  | .objectType members => some members
  | .collectionType _ element => some [element]
  | .tupleType elements => some elements
  | .property kind _ value => if kind.showsEntries then value.children else some [value]
  | _ => none

/-- Whether a node is a comment of either form. -/
def isComment : Node → Bool
  | .comment _ _ => true
  | .multilineComment _ => true
  | _ => false

end Node

end HclSyntax
