import HclSyntax.Node.Render

/-!
# `HclSyntax.Proofs.Node.Parts`: what stands inside a node

`Node.inside` lists the nodes directly inside a node. A property has its value there, also where
`Node.children` shows the entries of that value instead. `Node.Everywhere` says that something holds
of a node and of all that is inside it, to any depth.

The rest of the module names what the printed form of a node ends with, since that decides what may
follow it. `Node.terms` are the terms of an expression. A heredoc has to end its line: in the compact
layout its line break is printed with it, and `overhang` is what that leaves behind the heredoc; in
the block layout `endsInHeredoc` says that the line break is still to come.
-/

set_option autoImplicit false

namespace HclSyntax

/-- Whether everything is put on one line. -/
def Layout.isCompact : Layout → Bool
  | .compact => true
  | .block _ => false

/-- A nested layout is compact if the one around it is. -/
@[simp]
theorem Layout.isCompact_nested (layout : Layout) : layout.nested.isCompact = layout.isCompact := by
  cases layout <;> rfl

namespace Node

/-- The nodes directly inside a node. -/
def inside : Node → List Node
  | .root declarations => declarations
  | .block _ declarations => declarations
  | .unquotedExpression terms => terms
  | .list elements => elements
  | .map entries => entries
  | .function _ arguments => arguments
  | .objectType members => members
  | .collectionType _ element => [element]
  | .tupleType elements => elements
  | .property _ _ value => [value]
  | _ => []

/-- Something holds of a node and of everything inside it. -/
inductive Everywhere (holds : Node → Prop) : Node → Prop
  | intro {node : Node} (here : holds node)
    (inside : ∀ part ∈ node.inside, Everywhere holds part) : Everywhere holds node

section Everywhere

variable {holds weaker : Node → Prop} {node part : Node}

/-- What holds everywhere in a node holds of the node. -/
theorem Everywhere.here (h : Everywhere holds node) : holds node := by
  obtain ⟨here, -⟩ := h
  exact here

/-- It holds everywhere in a node that stands directly inside. -/
theorem Everywhere.of_mem_inside (h : Everywhere holds node) (mem : part ∈ node.inside) :
    Everywhere holds part := by
  obtain ⟨-, inside⟩ := h
  exact inside part mem

/-- Something weaker holds everywhere too. -/
theorem Everywhere.mono (h : Everywhere holds node) (weaken : ∀ part, holds part → weaker part) :
    Everywhere weaker node := by
  induction h with
  | intro here _ ih => exact .intro (weaken _ here) ih

/-- What is inside a node is smaller than the node. -/
theorem sizeOf_lt_of_mem_inside (mem : part ∈ node.inside) : sizeOf part < sizeOf node := by
  cases node with
  | root nodes | block _ nodes | unquotedExpression nodes | list nodes | map nodes
  | function _ nodes | objectType nodes | tupleType nodes =>
    have smaller : sizeOf part < sizeOf nodes := List.sizeOf_lt_of_mem mem
    simp only [root.sizeOf_spec, block.sizeOf_spec, unquotedExpression.sizeOf_spec, list.sizeOf_spec,
      map.sizeOf_spec, function.sizeOf_spec, objectType.sizeOf_spec, tupleType.sizeOf_spec]
    omega
  | collectionType | property =>
    obtain rfl := List.mem_singleton.mp mem
    simp only [collectionType.sizeOf_spec, property.sizeOf_spec]
    omega
  | _ => cases mem

/-- What a node hands on to what is inside it holds everywhere in it. -/
theorem Everywhere.of_closed (closed : ∀ node, holds node → ∀ part ∈ node.inside, holds part)
    {node : Node} (h : holds node) : Everywhere holds node :=
  .intro h fun part mem =>
    have := sizeOf_lt_of_mem_inside mem
    of_closed closed (closed node h part mem)
termination_by sizeOf node

/-- Something holds everywhere if it holds of the node, and everywhere in what is inside it. -/
theorem everywhere_iff :
    Everywhere holds node ↔ holds node ∧ ∀ part ∈ node.inside, Everywhere holds part := by
  constructor
  · intro h
    exact ⟨h.here, fun _ => h.of_mem_inside⟩
  · rintro ⟨here, inside⟩
    exact .intro here inside

end Everywhere

section Check

variable (holds : Node → Prop) [DecidablePred holds]

mutual

/-- Checks a node and everything inside it. -/
def check : Node → Bool
  | .root declarations => decide (holds (.root declarations)) && checkAll declarations
  | .block header declarations => decide (holds (.block header declarations)) && checkAll declarations
  | .unquotedExpression terms => decide (holds (.unquotedExpression terms)) && checkAll terms
  | .list elements => decide (holds (.list elements)) && checkAll elements
  | .map entries => decide (holds (.map entries)) && checkAll entries
  | .function name arguments => decide (holds (.function name arguments)) && checkAll arguments
  | .objectType members => decide (holds (.objectType members)) && checkAll members
  | .collectionType collection element =>
    decide (holds (.collectionType collection element)) && check element
  | .tupleType elements => decide (holds (.tupleType elements)) && checkAll elements
  | .property kind name value => decide (holds (.property kind name value)) && check value
  | node => decide (holds node)

/-- Checks some nodes and everything inside them. -/
def checkAll : List Node → Bool
  | [] => true
  | node :: rest => check node && checkAll rest

end

mutual

/-- The check decides what holds everywhere. -/
theorem check_iff : ∀ node : Node, check holds node = true ↔ node.Everywhere holds
  | .comment _ _ | .multilineComment _ | .string _ | .unquotedString _ | .numberOrBool _
  | .mathSymbol _ | .forLoop _ | .heredoc _ | .primitiveType _ _ => by
    rw [check, decide_eq_true_iff, everywhere_iff] <;> simp [inside]
  | .collectionType _ part | .property _ _ part => by
    rw [check, Bool.and_eq_true, decide_eq_true_iff, check_iff part]
    refine Iff.trans ?_ everywhere_iff.symm
    exact and_congr_right' List.forall_mem_singleton.symm
  | .root nodes | .block _ nodes | .unquotedExpression nodes | .list nodes | .map nodes
  | .function _ nodes | .objectType nodes | .tupleType nodes => by
    rw [check, Bool.and_eq_true, decide_eq_true_iff, checkAll_iff nodes, everywhere_iff]
    rfl

/-- The same for several nodes. -/
theorem checkAll_iff : ∀ nodes : List Node,
    checkAll holds nodes = true ↔ ∀ node ∈ nodes, node.Everywhere holds
  | [] => by simp [checkAll]
  | node :: rest => by simp [checkAll, check_iff node, checkAll_iff rest]

end

instance : DecidablePred (Everywhere holds) := fun node =>
  decidable_of_iff (check holds node = true) (check_iff holds node)

end Check

/-- The terms of an expression; any other node is a single term. -/
def terms : Node → List Node
  | .unquotedExpression terms => terms
  | node => [node]

/-- What a heredoc at the end of some terms leaves behind it in the compact layout. -/
def overhang (layout : Layout) (terms : List Node) : Text :=
  if layout.isCompact && terms.getLast?.any isHeredoc then ['\n'] else []

/-- What a declaration leaves behind it. -/
def declarationOverhang (layout : Layout) : Node → Text
  | .property _ _ value => overhang layout value.terms
  | _ => []

/-- Whether a node is a comment that ends with its line. -/
def isLineComment : Node → Bool
  | .comment _ _ => true
  | _ => false

/-- Whether the arguments of a call stay on the line of the call in the block layout. -/
def onOneLine (arguments : List Node) : Bool :=
  !arguments.any fun argument => argument.isComment || argument.isHeredoc

mutual

/-- Whether the block form of a node ends with the marker of a heredoc, perhaps inside the brackets
of a call. -/
def endsInHeredoc : Node → Bool
  | .heredoc _ => true
  | .unquotedExpression terms => lastEndsInHeredoc terms
  | .function _ arguments => onOneLine arguments && lastEndsInHeredoc arguments
  | _ => false

/-- Whether the block form of the last node does. -/
def lastEndsInHeredoc : List Node → Bool
  | [] => false
  | [node] => endsInHeredoc node
  | _ :: next :: rest => lastEndsInHeredoc (next :: rest)

end

/-- The last of some nodes is asked whether it ends in a heredoc. -/
theorem lastEndsInHeredoc_eq (nodes : List Node) :
    lastEndsInHeredoc nodes = nodes.getLast?.any endsInHeredoc := by
  induction nodes with
  | nil => rfl
  | cons node rest ih =>
    cases rest with
    | nil => simp [lastEndsInHeredoc]
    | cons next rest =>
      rw [lastEndsInHeredoc, ih]
      simp

end Node

end HclSyntax
