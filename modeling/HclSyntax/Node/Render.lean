import HclSyntax.Node.Basic
import HclSyntax.Text.Escape

/-!
# `HclSyntax.Node.Render`: printing a tree

A tree is printed in one of two layouts. The block layout puts every declaration, every list element
and, where it has to, every argument on a line of its own, two spaces further in for each level of
nesting. The compact layout puts everything on one line, but for heredocs, which need line breaks of
their own.

`Node.valueForm` prints what a node is without its name and without the margin of its line.
`Node.render` adds both: the margin, and, unless the node is to be printed naked, its lead: the
header of a block or the name and equals sign of a property.
-/

set_option autoImplicit false

namespace HclSyntax

/-- How a tree is laid out on lines. -/
inductive Layout where
  /-- Everything on one line. -/
  | compact
  /-- One line for each declaration, at this level of nesting. -/
  | block (level : Nat)
deriving DecidableEq, Repr

namespace Layout

/-- A level of nesting, or any negative number for the compact layout. -/
def ofIndent : Int → Layout
  | .ofNat level => .block level
  | .negSucc _ => .compact

/-- The layout one level further in. -/
def nested : Layout → Layout
  | .compact => .compact
  | .block level => .block (level + 1)

/-- The white space a line starts with: two spaces for each level. -/
def margin : Layout → Text
  | .compact => []
  | .block level => List.replicate (2 * level) ' '

/-- What stands between declarations. -/
def separator : Layout → Text
  | .compact => [',', ' ']
  | .block _ => ['\n']

end Layout

/-- A name as it is written. -/
def Name.source (name : Name) : Text :=
  if name.quoted then name.text.quote else name.text

/-- What stands before the brace of a block. Labels are always written in quotes. -/
def BlockHeader.source (header : BlockHeader) : Text :=
  (if header.isDynamic then "dynamic ".toList else []) ++ header.name.source
    ++ labelSource header.label ++ labelSource header.typeLabel
where
  /-- A label with the space before it. -/
  labelSource : Option Text → Text
    | none => []
    | some label => ' ' :: label.quote

/-- A for expression as it is written. -/
def ForLoop.source (loop : ForLoop) : Text :=
  loop.opening :: loop.header ++ [loop.closing]

/-- A heredoc as it is written. Its closing marker has to end its line, so the compact layout takes
a line break into the heredoc. -/
def Heredoc.source (layout : Layout) (doc : Heredoc) : Text :=
  "<<".toList ++ (if doc.indented then ['-'] else []) ++ doc.marker ++ '\n' :: doc.body
    ++ doc.marker
    ++ (match layout with
      | .compact => ['\n']
      | .block _ => [])

namespace Node

/-- What a declaration starts with: the header of a block, or the name of a property with the equals
sign. -/
def lead : Node → Text
  | .block header _ => header.source ++ [' ']
  | .property _ name _ => name.source ++ [' ', '=', ' ']
  | _ => []

/-- The white space before a node on a line of its own. A root has none: its declarations have their
own. -/
def margin (layout : Layout) : Node → Text
  | .root _ => []
  | _ => layout.margin

/-- Whether a term is a list index or an attribute access, which follows its operand without a
space. -/
def isAccessor : Node → Bool
  | .unquotedString ('.' :: _) => true
  | .unquotedString ('[' :: _) => true
  | _ => false

/-- Whether a term is an operator symbol. -/
def isSymbol : Node → Bool
  | .mathSymbol _ => true
  | _ => false

/-- Whether a term is a heredoc. -/
def isHeredoc : Node → Bool
  | .heredoc _ => true
  | _ => false

/-- What stands between two neighbouring terms, given the term before them: nothing after a sign in
front of its operand, which is a symbol at the start or after another symbol, and nothing before an
accessor; a line break after a heredoc, whose marker has to end its line. -/
def gap (layout : Layout) (before : Option Node) (previous term : Node) : Text :=
  let afterSign := previous.isSymbol && (before.all isSymbol)
  if previous.isHeredoc && layout != .compact then ['\n']
  else if afterSign || term.isAccessor then []
  else [' ']

/-- Printed terms with the gaps between them; `before` is the term before the previous one. -/
def joinTerms (layout : Layout) (before : Option Node) (previous : Node) :
    List (Node × Text) → Text
  | [] => []
  | (term, form) :: rest =>
    gap layout before previous term ++ form ++ joinTerms layout (some previous) term rest

/-- The printed terms of an expression, one after the other. -/
def expressionForm (layout : Layout) : List (Node × Text) → Text
  | [] => []
  | (term, form) :: rest => form ++ joinTerms layout none term rest

/-- Printed elements on lines of their own: all but the last and the comments take a comma. -/
def withCommas (layout : Layout) : List (Node × Text) → List Text
  | [] => []
  | [(element, form)] => [element.margin layout ++ form]
  | (element, form) :: rest =>
    (element.margin layout ++ form ++ (if element.isComment then [] else [',']))
      :: withCommas layout rest

/-- Printed declarations with their names and margins, separated. -/
def sequenceForm (layout : Layout) (declarations : List (Node × Text)) : Text :=
  Text.join layout.separator
    (declarations.map fun (node, form) => node.margin layout ++ node.lead ++ form)

/-- Declarations, printed one level further in, in braces. -/
def bodyForm (layout : Layout) (declarations : List (Node × Text)) : Text :=
  if declarations.isEmpty then ['{', '}']
  else
    match layout with
    | .compact => '{' :: sequenceForm layout declarations ++ ['}']
    | .block _ =>
      ['{', '\n'] ++ sequenceForm layout.nested declarations ++ '\n' :: layout.margin ++ ['}']

/-- Elements, printed one level further in, in square brackets. -/
def listForm (layout : Layout) (elements : List (Node × Text)) : Text :=
  if elements.isEmpty then ['[', ']']
  else
    match layout with
    | .compact => '[' :: Text.join [' '] (withCommas layout elements) ++ [']']
    | .block _ =>
      ['[', '\n'] ++ Text.join ['\n'] (withCommas layout.nested elements)
        ++ '\n' :: layout.margin ++ [']']

/-- Whether a call has to put its arguments on lines of their own: a comment or a heredoc among them
ends its line. -/
def needsLines (layout : Layout) (arguments : List Node) : Bool :=
  layout != .compact && arguments.any fun argument => argument.isComment || argument.isHeredoc

/-- The layout in which the arguments of a call are printed. -/
def argumentLayout (layout : Layout) (arguments : List Node) : Layout :=
  if needsLines layout arguments then layout.nested else layout

/-- Arguments, printed in their layout, in parentheses. -/
def argumentsForm (layout : Layout) (arguments : List (Node × Text)) : Text :=
  if needsLines layout (arguments.map Prod.fst) then
    ['(', '\n'] ++ Text.join ['\n'] (withCommas layout.nested arguments)
      ++ '\n' :: layout.margin ++ [')']
  else '(' :: Text.join [',', ' '] (arguments.map Prod.snd) ++ [')']

mutual

/-- A node without its name and margin; the layout is that of the line it starts on. -/
def valueForm (layout : Layout) : Node → Text
  | .root declarations => sequenceForm layout (forms layout declarations)
  | .block _ declarations => bodyForm layout (forms layout.nested declarations)
  | .comment style text =>
    match layout with
    | .compact => "/*".toList ++ text ++ "*/".toList
    | .block _ => style.marker ++ text
  | .multilineComment text => "/*".toList ++ text ++ "*/".toList
  | .string content => content.quote
  | .unquotedString text => text
  | .numberOrBool text => text
  | .mathSymbol text => text
  | .unquotedExpression terms => expressionForm layout (forms layout terms)
  | .list elements => listForm layout (forms layout.nested elements)
  | .map entries => bodyForm layout (forms layout.nested entries)
  | .forLoop loop => loop.source
  | .function name arguments =>
    name.getD [] ++ argumentsForm layout (forms (argumentLayout layout arguments) arguments)
  | .heredoc doc => doc.source layout
  | .primitiveType name quoted => if quoted then name.quote else name
  | .objectType members =>
    "object(".toList ++ bodyForm layout (forms layout.nested members) ++ [')']
  | .collectionType collection element =>
    collection.word ++ '(' :: valueForm layout element ++ [')']
  | .tupleType elements =>
    "tuple([".toList ++ Text.join [',', ' '] ((forms layout elements).map Prod.snd) ++ [']', ')']
  | .property _ _ value => valueForm layout value

/-- Nodes, each with its value form. -/
def forms (layout : Layout) : List Node → List (Node × Text)
  | [] => []
  | node :: rest => (node, valueForm layout node) :: forms layout rest

end

/-- Each node of `forms` stands beside its value form. -/
theorem forms_eq_map (layout : Layout) (nodes : List Node) :
    forms layout nodes = nodes.map fun node => (node, valueForm layout node) := by
  induction nodes with
  | nil => rfl
  | cons node rest ih => simp [forms, ih]

/-- A node on a line of its own. A node that is printed naked leaves out its lead: a property shows
only its value and a block only its body. -/
def render (naked : Bool) (layout : Layout) (node : Node) : Text :=
  node.margin layout ++ (if naked then [] else node.lead) ++ valueForm layout node

end Node

/-- The whole document as text. -/
def Document.render (layout : Layout) (document : Document) : Text :=
  document.root.render false layout

end HclSyntax
