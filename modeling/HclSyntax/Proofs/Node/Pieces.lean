import HclSyntax.Node.Visit
import HclSyntax.Proofs.Grammar.ForLoop
import HclSyntax.Proofs.Grammar.Verbatim

/-!
# `HclSyntax.Proofs.Node.Pieces`: what a tree keeps of its source

A tree keeps names, labels and the texts of its leaves; everything else that was written is layout,
punctuation and keywords. `Node.pieces` lists what is kept in the order in which the nodes are
visited, `Piece.Spells` says how a piece may be written, and `Covers pieces text` that a text is made
of the pieces, each once and in this order, with nothing but gaps between them.

Most pieces are kept as they are written. A quoted string is kept unescaped, a for expression part by
part without its white space, and a heredoc without the white space around its markers.
-/

set_option autoImplicit false

namespace HclSyntax

/-! ### Pieces and their spellings -/

/-- A part of the source that a tree keeps. -/
inductive Piece where
  /-- Text that is kept as it is written. -/
  | verbatim (text : Text)
  | comment (style : CommentStyle) (text : Text)
  | multilineComment (text : Text)
  /-- A primitive type in quotes. -/
  | quotedType (name : Text)
  | quoted (content : Text)
  /-- A label, of which the tree does not keep whether it was quoted. -/
  | label (text : Text)
  | forLoop (loop : ForLoop)
  | heredoc (doc : Heredoc)

/-- A quoted string with this content. -/
def Text.Quotes (content span : Text) : Prop :=
  ∃ inside, span = '"' :: inside ++ ['"'] ∧ Text.quotedSpan span = some (span, [])
    ∧ Text.unescape inside = content

/-- The names a for expression binds, with white space around their comma. -/
def SpellsBindings (bindings span : Text) : Prop :=
  span = bindings ∨ ∃ first second space after, Text.AllSpace space ∧ Text.AllSpace after
    ∧ bindings = first ++ ", ".toList ++ second ∧ span = first ++ space ++ ',' :: after ++ second

/-- The condition of a for expression, if it has one. -/
def SpellsCondition (condition span : Text) : Prop :=
  condition = [] ∧ span = [] ∨ ∃ space inside, Text.AllSpace space
    ∧ condition = "if ".toList ++ Text.trim inside ∧ span = space ++ "if".toList ++ inside

/-- A for expression from its opening to its closing bracket. -/
def ForLoop.Spells (loop : ForLoop) (span : Text) : Prop :=
  ∃ bindings collection statements condition space₁ space₂ space₃ space₄ space₅ space₆,
    SpellsBindings loop.bindings bindings ∧ Text.trim collection = loop.collection
      ∧ Text.trim statements = loop.statements ∧ SpellsCondition loop.condition condition
      ∧ (∀ space ∈ [space₁, space₂, space₃, space₄, space₅, space₆], Text.AllSpace space)
      ∧ span = loop.opening :: space₁ ++ "for".toList ++ space₂ ++ bindings ++ space₃
          ++ "in".toList ++ space₄ ++ collection ++ ':' :: space₅ ++ statements ++ condition
          ++ space₆ ++ [loop.closing]

/-- A heredoc from its first line to its closing marker. -/
def Heredoc.Spells (doc : Heredoc) (span : Text) : Prop :=
  ∃ line indent, Grammar.IsHeredocLine doc.marker doc.indented line
    ∧ (∀ c ∈ indent, Text.isInline c = true) ∧ span = line ++ doc.body ++ indent ++ doc.marker

namespace Piece

/-- The piece is written like this. -/
def Spells : Piece → Text → Prop
  | .verbatim text, span => span = text
  | .comment _ text, span => span = text
  | .multilineComment text, span => span = text
  | .quotedType name, span => span = name
  | .quoted content, span => content.Quotes span
  | .label text, span => span = text ∨ text.Quotes span
  | .forLoop loop, span => loop.Spells span
  | .heredoc doc, span => doc.Spells span

/-- The marks right before and right after a piece that belong to the gaps: the markers of comments and
the quotes of primitive types. -/
def marks : Piece → Text × Text
  | .comment style _ => (style.marker, [])
  | .multilineComment _ => ("/*".toList, "*/".toList)
  | .quotedType _ => (['"'], ['"'])
  | _ => ([], [])

end Piece

/-! ### Gaps -/

/-- The characters between pieces: white space, separators, equals signs, colons and brackets. -/
def isGapChar (c : Char) : Bool :=
  isWhitespace c || [',', ';', '=', ':', '(', ')', '[', ']', '{', '}'].contains c

/-- The words between pieces. -/
def gapWords : List Text :=
  ["dynamic".toList, "object".toList, "map".toList, "list".toList, "set".toList, "tuple".toList]

/-- The text is the pieces in this order, with gaps before, between and behind them. -/
inductive Covers : List Piece → Text → Prop
  | nil : Covers [] []
  | char {pieces : List Piece} {c : Char} {rest : Text} (gap : isGapChar c = true)
    (more : Covers pieces rest) : Covers pieces (c :: rest)
  | word {pieces : List Piece} {word rest : Text} (gap : word ∈ gapWords)
    (more : Covers pieces rest) : Covers pieces (word ++ rest)
  | piece {piece : Piece} {span : Text} {pieces : List Piece} {rest : Text}
    (spells : piece.Spells span) (more : Covers pieces rest) :
    Covers (piece :: pieces) (piece.marks.1 ++ span ++ piece.marks.2 ++ rest)

namespace Covers

/-- Two texts in a row have the pieces of the first and then those of the second. -/
theorem append {front back : List Piece} {a b : Text} (hfront : Covers front a)
    (hback : Covers back b) : Covers (front ++ back) (a ++ b) := by
  induction hfront with
  | nil => exact hback
  | char gap _ ih => exact .char gap ih
  | word gap _ ih =>
    rw [List.append_assoc]
    exact .word gap ih
  | piece spells _ ih =>
    rw [List.append_assoc]
    exact .piece spells ih

/-- A piece on its own. -/
theorem single (piece : Piece) {span : Text} (spells : piece.Spells span) :
    Covers [piece] (piece.marks.1 ++ span ++ piece.marks.2) := by
  have alone := Covers.piece spells .nil
  rwa [List.append_nil] at alone

/-- A piece that has no marks. -/
theorem unmarked (piece : Piece) {span : Text} (spells : piece.Spells span)
    (noMarks : piece.marks = ([], [])) : Covers [piece] span := by
  have alone := single piece spells
  rwa [noMarks, List.nil_append, List.append_nil] at alone

/-- Text that is kept as it is written. -/
theorem verbatim (text : Text) : Covers [.verbatim text] text :=
  unmarked (.verbatim text) rfl rfl

/-- Characters of gaps only are a gap. -/
theorem gap {text : Text} (all : ∀ c ∈ text, isGapChar c = true) : Covers [] text := by
  induction text with
  | nil => exact .nil
  | cons c rest ih =>
    exact .char (all c (by simp)) (ih fun d hd => all d (List.mem_cons_of_mem c hd))

/-- White space is a gap. -/
theorem space {text : Text} (h : Text.AllSpace text) : Covers [] text :=
  gap fun c hc => by simp [isGapChar, h c hc]

/-- So is a word that is not kept. -/
theorem gapWord {word : Text} (h : word ∈ gapWords) : Covers [] word := by
  have alone := Covers.word h .nil
  rwa [List.append_nil] at alone

end Covers

/-! ### The pieces of a tree -/

/-- The name as a piece of the source. -/
def Name.piece (name : Name) : Piece :=
  if name.quoted then .quoted name.text else .verbatim name.text

namespace Node

/-- What a node keeps itself: the name and labels of a block, the name of a property or call, and the
text of a leaf. -/
def ownPieces : Node → List Piece
  | .block header _ => header.name.piece :: header.label.toList.map .label
      ++ header.typeLabel.toList.map .label
  | .comment style text => [.comment style text]
  | .multilineComment text => [.multilineComment text]
  | .string content => [.quoted content]
  | .unquotedString text => [.verbatim text]
  | .numberOrBool text => [.verbatim text]
  | .mathSymbol text => [.verbatim text]
  | .forLoop loop => [.forLoop loop]
  | .function name _ => name.toList.map .verbatim
  | .heredoc doc => [.heredoc doc]
  | .primitiveType name quoted => [if quoted then .quotedType name else .verbatim name]
  | .property _ name _ => [name.piece]
  | _ => []

/-- What a tree keeps, in the order in which its nodes are visited. -/
def pieces (node : Node) : List Piece :=
  node.visits.flatMap fun visit => visit.2.ownPieces

mutual

/-- The depth at which a walk starts makes no difference to what is visited. -/
theorem map_snd_visitsBelow (depth other : Nat) : ∀ node : Node,
    (node.visitsBelow depth).map Prod.snd = (node.visitsBelow other).map Prod.snd
  | .root declarations => map_snd_visitsOf depth other declarations
  | .block _ declarations => map_snd_visitsOf depth other declarations
  | .unquotedExpression terms => map_snd_visitsOf depth other terms
  | .list elements => map_snd_visitsOf depth other elements
  | .map entries => map_snd_visitsOf depth other entries
  | .function _ arguments => map_snd_visitsOf depth other arguments
  | .objectType members => map_snd_visitsOf depth other members
  | .collectionType _ element => by
    simp only [visitsBelow, List.map_cons, map_snd_visitsBelow (depth + 1) (other + 1) element]
  | .tupleType elements => map_snd_visitsOf depth other elements
  | .property kind _ value => by
    unfold visitsBelow
    split
    · exact map_snd_visitsBelow depth other value
    · simp only [List.map_cons, map_snd_visitsBelow (depth + 1) (other + 1) value]
  | .comment _ _ | .multilineComment _ | .string _ | .unquotedString _ | .numberOrBool _
  | .mathSymbol _ | .forLoop _ | .heredoc _ | .primitiveType _ _ => rfl

/-- The same for the walks over several nodes. -/
theorem map_snd_visitsOf (depth other : Nat) : ∀ nodes : List Node,
    (visitsOf depth nodes).map Prod.snd = (visitsOf other nodes).map Prod.snd
  | [] => rfl
  | node :: rest => by
    simp only [visitsOf, List.map_append, List.map_cons,
      map_snd_visitsBelow (depth + 1) (other + 1) node, map_snd_visitsOf depth other rest]

end

/-- Below a node are its children, each with what is below it. -/
theorem flatMap_visitsOf (depth : Nat) (nodes : List Node) :
    (visitsOf depth nodes).flatMap (fun visit => visit.2.ownPieces) = nodes.flatMap pieces := by
  induction nodes with
  | nil => rfl
  | cons node rest ih =>
    -- The children are visited one level deeper than where their own walk starts.
    have below : (node.visitsBelow (depth + 1)).flatMap (fun visit => visit.2.ownPieces)
        = (node.visitsBelow 1).flatMap fun visit => visit.2.ownPieces := by
      have same := map_snd_visitsBelow (depth + 1) 1 node
      simpa only [List.flatMap_map] using congrArg (List.flatMap ownPieces) same
    simp only [visitsOf, pieces, visits, List.cons_append, List.flatMap_cons, List.flatMap_append,
      List.append_assoc, below, ih]

/-- The pieces below a node are those of its children, in order. -/
theorem flatMap_visitsBelow (depth : Nat) : ∀ node : Node,
    (node.visitsBelow depth).flatMap (fun visit => visit.2.ownPieces)
      = (node.children.getD []).flatMap pieces
  | .root declarations => flatMap_visitsOf depth declarations
  | .block _ declarations => flatMap_visitsOf depth declarations
  | .unquotedExpression terms => flatMap_visitsOf depth terms
  | .list elements => flatMap_visitsOf depth elements
  | .map entries => flatMap_visitsOf depth entries
  | .function _ arguments => flatMap_visitsOf depth arguments
  | .objectType members => flatMap_visitsOf depth members
  | .tupleType elements => flatMap_visitsOf depth elements
  | .collectionType _ element => by
    have alone := flatMap_visitsOf depth [element]
    rwa [visitsOf, visitsOf, List.append_nil] at alone
  | .property kind _ value => by
    unfold visitsBelow children
    split
    · exact flatMap_visitsBelow depth value
    · have alone := flatMap_visitsOf depth [value]
      rwa [visitsOf, visitsOf, List.append_nil] at alone
  | .comment _ _ | .multilineComment _ | .string _ | .unquotedString _ | .numberOrBool _
  | .mathSymbol _ | .forLoop _ | .heredoc _ | .primitiveType _ _ => rfl

/-- A tree keeps what its root keeps, and then what its children do. -/
theorem pieces_eq (node : Node) :
    node.pieces = node.ownPieces ++ (node.children.getD []).flatMap pieces := by
  rw [← flatMap_visitsBelow 1]
  rfl

section Pieces

variable (nodes : List Node)

/-- A template keeps what its declarations keep. -/
@[simp]
theorem pieces_root : (Node.root nodes).pieces = nodes.flatMap pieces :=
  pieces_eq _

/-- A block keeps its name and its labels, and then what its declarations keep. -/
@[simp]
theorem pieces_block (header : BlockHeader) :
    (Node.block header nodes).pieces
      = header.name.piece :: header.label.toList.map .label ++ header.typeLabel.toList.map .label
        ++ nodes.flatMap pieces :=
  pieces_eq _

/-- An expression keeps what its terms keep. -/
@[simp]
theorem pieces_unquotedExpression :
    (Node.unquotedExpression nodes).pieces = nodes.flatMap pieces :=
  pieces_eq _

/-- A list keeps what its elements keep. -/
@[simp]
theorem pieces_list : (Node.list nodes).pieces = nodes.flatMap pieces :=
  pieces_eq _

/-- A map keeps what its entries keep. -/
@[simp]
theorem pieces_map : (Node.map nodes).pieces = nodes.flatMap pieces :=
  pieces_eq _

/-- A call keeps its name and then what its arguments keep. -/
@[simp]
theorem pieces_function (name : Option Text) :
    (Node.function name nodes).pieces = name.toList.map .verbatim ++ nodes.flatMap pieces :=
  pieces_eq _

/-- An object type keeps what its members keep. -/
@[simp]
theorem pieces_objectType : (Node.objectType nodes).pieces = nodes.flatMap pieces :=
  pieces_eq _

/-- A tuple type keeps what its element types keep. -/
@[simp]
theorem pieces_tupleType : (Node.tupleType nodes).pieces = nodes.flatMap pieces :=
  pieces_eq _

/-- The type of a collection keeps what its element type keeps. -/
@[simp]
theorem pieces_collectionType (collection : CollectionType) (element : Node) :
    (Node.collectionType collection element).pieces = element.pieces := by
  simpa [ownPieces, children] using pieces_eq (.collectionType collection element)

/-- A property that shows the entries of its value must hold a value that keeps nothing itself. -/
theorem pieces_property {kind : PropertyKind} {name : Name} {value : Node}
    (h : kind.showsEntries = false ∨ value.ownPieces = []) :
    (Node.property kind name value).pieces = name.piece :: value.pieces := by
  rw [pieces_eq, children, ownPieces, List.singleton_append]
  split
  · next shows =>
    have nothing : value.ownPieces = [] := h.resolve_left (by simp [shows])
    rw [pieces_eq value, nothing, List.nil_append]
  · rw [Option.getD_some, List.flatMap_singleton]

end Pieces

end Node

end HclSyntax
