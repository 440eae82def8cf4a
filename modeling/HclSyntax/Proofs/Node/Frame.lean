import HclSyntax.Proofs.Node.Form

/-!
# `HclSyntax.Proofs.Node.Frame`: the places inside a tree

A `Frame` is a node with a place in it for another, and a list of frames leads to a place at any depth
(`Node.fill`). The printer prints the same text around a place whatever stands in it, as long as it
treats it alike (`Node.Alike`): `Node.formBehind` is the text behind the place, and `valueForm_fill`
says that the node in the place is printed in front of it.

A single frame says what a node puts behind each of its parts (`Frame.formBehind`): declarations and
elements the rest of their sequence, terms the gap and the terms after them, calls and types their
closing bracket.
-/

set_option autoImplicit false

namespace HclSyntax

/-- A piece among others that are joined. -/
theorem Text.join_between (separator piece : Text) (front back : List Text) :
    Text.join separator (front ++ piece :: back)
      = front.flatMap (· ++ separator) ++ piece ++ back.flatMap (separator ++ ·) := by
  induction front with
  | nil =>
    induction back generalizing piece with
    | nil => simp [Text.join]
    | cons next back ih =>
      have rest := ih next
      rw [List.nil_append] at rest ⊢
      rw [Text.join, rest]
      simp
  | cons first front ih =>
    obtain ⟨next, rest, shape⟩ := List.exists_cons_of_ne_nil
      (List.append_ne_nil_of_right_ne_nil front (List.cons_ne_nil piece back))
    rw [shape] at ih
    rw [List.cons_append, shape, Text.join, ih]
    simp

namespace Node

/-! ### Frames -/

/-- A node with a place in it for another. -/
inductive Frame where
  | root (front back : List Node)
  | block (header : BlockHeader) (front back : List Node)
  | unquotedExpression (front back : List Node)
  | list (front back : List Node)
  | map (front back : List Node)
  | function (name : Option Text) (front back : List Node)
  | objectType (front back : List Node)
  | collectionType (collection : CollectionType)
  | tupleType (front back : List Node)
  | property (kind : PropertyKind) (name : Name)

namespace Frame

/-- The node with this one in its place. -/
def fill : Frame → Node → Node
  | .root front back, part => .root (front ++ part :: back)
  | .block header front back, part => .block header (front ++ part :: back)
  | .unquotedExpression front back, part => .unquotedExpression (front ++ part :: back)
  | .list front back, part => .list (front ++ part :: back)
  | .map front back, part => .map (front ++ part :: back)
  | .function name front back, part => .function name (front ++ part :: back)
  | .objectType front back, part => .objectType (front ++ part :: back)
  | .collectionType collection, part => .collectionType collection part
  | .tupleType front back, part => .tupleType (front ++ part :: back)
  | .property kind name, part => .property kind name part

/-- What is filled in stands directly inside. -/
theorem mem_inside_fill (frame : Frame) (part : Node) : part ∈ (frame.fill part).inside := by
  cases frame <;> simp [fill, inside]

/-- Everything inside a node stands in a place of it. -/
theorem exists_fill {node part : Node} (h : part ∈ node.inside) :
    ∃ frame : Frame, node = frame.fill part := by
  have among {nodes : List Node} {holder : List Node → Node} (frame : List Node → List Node → Frame)
      (fills : ∀ front back, (frame front back).fill part = holder (front ++ part :: back))
      (h : part ∈ nodes) : ∃ frame : Frame, holder nodes = frame.fill part := by
    obtain ⟨front, back, rfl⟩ := List.append_of_mem h
    exact ⟨frame front back, (fills front back).symm⟩
  cases node with
  | root => exact among .root (fun _ _ => rfl) h
  | block header => exact among (.block header) (fun _ _ => rfl) h
  | unquotedExpression => exact among .unquotedExpression (fun _ _ => rfl) h
  | list => exact among .list (fun _ _ => rfl) h
  | map => exact among .map (fun _ _ => rfl) h
  | function name => exact among (.function name) (fun _ _ => rfl) h
  | objectType => exact among .objectType (fun _ _ => rfl) h
  | tupleType => exact among .tupleType (fun _ _ => rfl) h
  | collectionType collection =>
    obtain rfl := List.mem_singleton.mp h
    exact ⟨.collectionType collection, rfl⟩
  | property kind name =>
    obtain rfl := List.mem_singleton.mp h
    exact ⟨.property kind name, rfl⟩
  | _ => cases h

end Frame

/-- The node with this one in a place that the frames lead to, from the outermost one inwards. -/
def fill (frames : List Frame) (part : Node) : Node :=
  frames.foldr Frame.fill part

/-! ### Alike nodes -/

/-- The printer treats the nodes alike, but for the text it prints for each. -/
structure Alike (part other : Node) : Prop where
  comment : part.isComment = other.isComment
  heredoc : part.isHeredoc = other.isHeredoc
  symbol : part.isSymbol = other.isSymbol
  accessor : part.isAccessor = other.isAccessor
  lead : part.lead = other.lead
  margin : ∀ layout : Layout, part.margin layout = other.margin layout

/-- All heredocs are treated alike. -/
theorem alike_heredoc (doc other : Heredoc) : Alike (.heredoc doc) (.heredoc other) :=
  ⟨rfl, rfl, rfl, rfl, rfl, fun _ => rfl⟩

/-- A frame is treated alike whatever stands in it. -/
theorem Frame.alike_fill (frame : Frame) (part other : Node) :
    Alike (frame.fill part) (frame.fill other) := by
  cases frame <;> exact ⟨rfl, rfl, rfl, rfl, rfl, fun _ => rfl⟩

/-- Several frames are, if what stands in them is. -/
theorem alike_fill (frames : List Frame) {part other : Node} (h : Alike part other) :
    Alike (fill frames part) (fill frames other) := by
  cases frames with
  | nil => exact h
  | cons frame frames => exact frame.alike_fill _ _

section Behind

variable {layout : Layout} {part other : Node}

/-! ### What is printed behind a place -/

/-- The printed nodes around one of them. -/
theorem forms_between (front back : List Node) :
    forms layout (front ++ part :: back)
      = forms layout front ++ (part, valueForm layout part) :: forms layout back := by
  simp [forms_eq_map]

/-- The declarations behind one. -/
def declarationsBehind (layout : Layout) (back : List Node) : Text :=
  back.flatMap fun node => layout.separator ++ (node.margin layout ++ node.lead ++ valueForm layout node)

/-- The declarations behind one in braces, and the closing brace. -/
def bodyBehind (layout : Layout) (back : List Node) : Text :=
  declarationsBehind layout.nested back ++ closingBreak layout ++ ['}']

/-- The elements behind one, with its comma. -/
def elementsBehind (layout : Layout) (part : Node) (back : List Node) : Text :=
  (if back.isEmpty || part.isComment then [] else [','])
    ++ (withCommas layout (forms layout back)).flatMap (elementGap layout ++ ·)

/-- The arguments behind one, and the closing parenthesis. -/
def argumentsBehind (layout : Layout) (front : List Node) (part : Node) (back : List Node) : Text :=
  if needsLines layout (front ++ part :: back) then
    elementsBehind layout.nested part back ++ closingBreak layout ++ [')']
  else back.flatMap (fun argument => ',' :: ' ' :: valueForm layout argument) ++ [')']

namespace Frame

/-- The layout of the line that the node in the place starts on. -/
def layoutInside (layout : Layout) : Frame → Node → Layout
  | .block .., _ | .list .., _ | .map .., _ | .objectType .., _ => layout.nested
  | .function _ front back, part => argumentLayout layout (front ++ part :: back)
  | _, _ => layout

/-- What is printed behind the node in the place. -/
def formBehind (layout : Layout) : Frame → Node → Text
  | .root _ back, _ => declarationsBehind layout back
  | .block _ _ back, _ => bodyBehind layout back
  | .unquotedExpression front back, part => joinTerms layout front.getLast? part (forms layout back)
  | .list _ back, part => elementsBehind layout.nested part back ++ closingBreak layout ++ [']']
  | .map _ back, _ => bodyBehind layout back
  | .function _ front back, part => argumentsBehind layout front part back
  | .objectType _ back, _ => bodyBehind layout back ++ [')']
  | .collectionType _, _ => [')']
  | .tupleType _ back, _ =>
    back.flatMap (fun element => ',' :: ' ' :: valueForm layout element) ++ [']', ')']
  | .property _ _, _ => []

end Frame

/-- The text around a declaration between others. -/
theorem sequenceForm_between (layout : Layout) (part : Node) (front back : List Node) :
    ∃ ahead, ∀ other, Alike part other →
      sequenceForm layout (forms layout (front ++ other :: back))
        = ahead ++ valueForm layout other ++ declarationsBehind layout back := by
  refine ⟨front.flatMap (fun node =>
      node.margin layout ++ node.lead ++ valueForm layout node ++ layout.separator)
    ++ part.margin layout ++ part.lead, fun other alike => ?_⟩
  rw [sequenceForm, forms_eq_map, List.map_map, List.map_append, List.map_cons, Text.join_between,
    alike.margin, alike.lead, declarationsBehind]
  simp [List.flatMap_map]

/-- The text around a declaration in a body. -/
theorem bodyForm_between (layout : Layout) (part : Node) (front back : List Node) :
    ∃ ahead, ∀ other, Alike part other →
      bodyForm layout (forms layout.nested (front ++ other :: back))
        = ahead ++ valueForm layout.nested other ++ bodyBehind layout back := by
  obtain ⟨ahead, same⟩ := sequenceForm_between layout.nested part front back
  refine ⟨'{' :: openingBreak layout ++ ahead, fun other alike => ?_⟩
  rw [bodyForm_eq (by simp [forms_between]), same other alike, bodyBehind]
  simp

/-- The lines around an element between others. -/
theorem withCommas_between (front back : List Node) :
    withCommas layout (forms layout (front ++ part :: back))
      = front.map (fun node => node.margin layout ++ valueForm layout node
            ++ if node.isComment then [] else [','])
        ++ (part.margin layout ++ valueForm layout part
            ++ if back.isEmpty || part.isComment then [] else [','])
          :: withCommas layout (forms layout back) := by
  induction front with
  | nil =>
    cases back with
    | nil => simp [forms, withCommas]
    | cons next back => simp [forms, withCommas]
  | cons first front ih =>
    obtain ⟨next, rest, shape⟩ := List.exists_cons_of_ne_nil
      (List.append_ne_nil_of_right_ne_nil front (List.cons_ne_nil part back))
    rw [shape] at ih
    rw [List.cons_append, shape, forms_cons, forms_cons, withCommas, ← forms_cons, ih]
    · simp
    · rintro ⟨⟩

/-- The text around an element in a list. -/
theorem elements_between (layout : Layout) (part : Node) (front back : List Node) :
    ∃ ahead, ∀ other, Alike part other →
      Text.join (elementGap layout) (withCommas layout (forms layout (front ++ other :: back)))
        = ahead ++ valueForm layout other ++ elementsBehind layout part back := by
  refine ⟨front.flatMap (fun node => node.margin layout ++ valueForm layout node
      ++ (if node.isComment then [] else [',']) ++ elementGap layout) ++ part.margin layout,
    fun other alike => ?_⟩
  rw [withCommas_between, Text.join_between, ← alike.margin, ← alike.comment, elementsBehind]
  simp [List.flatMap_map]

/-- The text around an argument, in the layout that the arguments are printed in. -/
theorem arguments_between (layout : Layout) (part : Node) (front back : List Node) :
    ∃ ahead, ∀ other, Alike part other →
      argumentsForm layout (forms (argumentLayout layout (front ++ other :: back))
          (front ++ other :: back))
        = ahead ++ valueForm (argumentLayout layout (front ++ part :: back)) other
          ++ argumentsBehind layout front part back := by
  -- Whether the arguments need lines is decided by tests on which the two nodes agree.
  have same {other : Node} (alike : Alike part other) :
      needsLines layout (front ++ other :: back) = needsLines layout (front ++ part :: back) := by
    simp [needsLines, alike.comment, alike.heredoc]
  cases needed : needsLines layout (front ++ part :: back) with
  | true =>
    have block : layout.isCompact = false := by
      rw [needsLines_eq, Bool.and_eq_true, Bool.not_eq_true'] at needed
      exact needed.1
    obtain ⟨ahead, between⟩ := elements_between layout.nested part front back
    have gap : elementGap layout.nested = ['\n'] := by simp [elementGap, block]
    refine ⟨'(' :: '\n' :: ahead, fun other alike => ?_⟩
    rw [argumentsForm_lines (by rw [same alike, needed]), ← gap, between other alike, argumentsBehind,
      if_pos needed, argumentLayout, if_pos needed]
    simp
  | false =>
    refine ⟨'(' :: front.flatMap (fun argument => valueForm layout argument ++ [',', ' ']),
      fun other alike => ?_⟩
    rw [argumentsForm_oneLine (by rw [same alike, needed]), List.map_append, List.map_cons,
      Text.join_between, argumentsBehind, if_neg (by simp [needed]), argumentLayout,
      if_neg (by simp [needed])]
    simp [List.flatMap_map]

/-- What is printed behind a term depends on the terms before it only by whether they are symbols, and
whether the last of them is a heredoc. -/
theorem joinTerms_congr {before before' : Option Node} {previous previous' : Node}
    (symbols : before.all isSymbol = before'.all isSymbol)
    (symbol : previous.isSymbol = previous'.isSymbol)
    (heredoc : previous.isHeredoc = previous'.isHeredoc) (back : List (Node × Text)) :
    joinTerms layout before previous back = joinTerms layout before' previous' back := by
  induction back generalizing before before' previous previous' with
  | nil => rfl
  | cons next rest ih =>
    obtain ⟨term, form⟩ := next
    have sameGap : gap layout before previous term = gap layout before' previous' term := by
      rw [gap_eq, gap_eq, symbols, symbol, heredoc]
    have sameRest := @ih (some previous) (some previous') term term (by simpa using symbol) rfl rfl
    rw [joinTerms, joinTerms, sameGap, sameRest]

/-- The text around a term behind others. -/
theorem joinTerms_between (layout : Layout) (part : Node) (before : Option Node) (previous : Node)
    (front back : List Node) :
    ∃ ahead, ∀ other, Alike part other →
      joinTerms layout before previous (forms layout (front ++ other :: back))
        = ahead ++ valueForm layout other
          ++ joinTerms layout (previous :: front).getLast? part (forms layout back) := by
  induction front generalizing before previous with
  | nil =>
    refine ⟨gap layout before previous part, fun other alike => ?_⟩
    have sameGap : gap layout before previous other = gap layout before previous part := by
      rw [gap_eq, gap_eq, alike.accessor]
    rw [List.nil_append, joinTerms_cons, sameGap, List.getLast?_singleton,
      joinTerms_congr rfl alike.symbol.symm alike.heredoc.symm]
  | cons next front ih =>
    obtain ⟨ahead, same⟩ := ih (some previous) next
    refine ⟨gap layout before previous next ++ valueForm layout next ++ ahead, fun other alike => ?_⟩
    rw [List.cons_append, joinTerms_cons, same other alike, List.getLast?_cons_cons]
    simp only [List.append_assoc]

/-- The text around a term of an expression. -/
theorem expressionForm_between (layout : Layout) (part : Node) (front back : List Node) :
    ∃ ahead, ∀ other, Alike part other →
      expressionForm layout (forms layout (front ++ other :: back))
        = ahead ++ valueForm layout other
          ++ joinTerms layout front.getLast? part (forms layout back) := by
  cases front with
  | nil =>
    refine ⟨[], fun other alike => ?_⟩
    exact congrArg _ (joinTerms_congr rfl alike.symbol.symm alike.heredoc.symm _)
  | cons first front =>
    obtain ⟨ahead, same⟩ := joinTerms_between layout part none first front back
    refine ⟨valueForm layout first ++ ahead, fun other alike => ?_⟩
    calc expressionForm layout (forms layout (first :: (front ++ other :: back)))
        = valueForm layout first
          ++ joinTerms layout none first (forms layout (front ++ other :: back)) :=
          termsForm_cons ..
      _ = valueForm layout first ++ ahead ++ valueForm layout other
          ++ joinTerms layout (first :: front).getLast? part (forms layout back) := by
          rw [same other alike]
          simp only [List.append_assoc]

/-- A node is printed around what stands in a place of it: what comes before and behind is the same for
all nodes that are alike. -/
theorem Frame.valueForm_fill (layout : Layout) (frame : Frame) (part : Node) :
    ∃ ahead, ∀ other, Alike part other →
      valueForm layout (frame.fill other)
        = ahead ++ valueForm (frame.layoutInside layout part) other ++ frame.formBehind layout part := by
  cases frame with
  | root front back => exact sequenceForm_between layout part front back
  | block header front back => exact bodyForm_between layout part front back
  | unquotedExpression front back => exact expressionForm_between layout part front back
  | list front back =>
    obtain ⟨ahead, same⟩ := elements_between layout.nested part front back
    refine ⟨'[' :: openingBreak layout ++ ahead, fun other alike => ?_⟩
    -- The gap between elements is that of the layout around the list.
    have gap : elementGap layout = elementGap layout.nested := by cases layout <;> rfl
    rw [fill, valueForm_list, listForm_eq (by simp [forms_between]), gap, same other alike]
    simp [formBehind, layoutInside]
  | map front back => exact bodyForm_between layout part front back
  | function name front back =>
    obtain ⟨ahead, same⟩ := arguments_between layout part front back
    refine ⟨name.getD [] ++ ahead, fun other alike => ?_⟩
    rw [fill, valueForm_function, same other alike]
    simp [formBehind, layoutInside]
  | objectType front back =>
    obtain ⟨ahead, same⟩ := bodyForm_between layout part front back
    refine ⟨"object(".toList ++ ahead, fun other alike => ?_⟩
    rw [fill, valueForm_objectType, same other alike]
    simp [formBehind, layoutInside]
  | collectionType collection =>
    refine ⟨collection.word ++ ['('], fun other _ => ?_⟩
    rw [fill, valueForm_collectionType]
    simp [formBehind, layoutInside]
  | tupleType front back =>
    refine ⟨"tuple([".toList ++ front.flatMap (fun element => valueForm layout element ++ [',', ' ']),
      fun other _ => ?_⟩
    rw [fill, valueForm_tupleType, forms_map_snd, List.map_append, List.map_cons, Text.join_between]
    simp [formBehind, layoutInside, List.flatMap_map]
  | property kind name =>
    refine ⟨[], fun other _ => ?_⟩
    rw [fill, valueForm_property]
    simp [formBehind, layoutInside]

/-- The layout of the line that a node in a place starts on. -/
def layoutAt (layout : Layout) : List Frame → Node → Layout
  | [], _ => layout
  | frame :: frames, part => layoutAt (frame.layoutInside layout (fill frames part)) frames part

/-- What is printed behind a node in a place. -/
def formBehind (layout : Layout) : List Frame → Node → Text
  | [], _ => []
  | frame :: frames, part =>
    formBehind (frame.layoutInside layout (fill frames part)) frames part
      ++ frame.formBehind layout (fill frames part)

/-- A layout inside a frame is compact if that around it is. -/
theorem Frame.isCompact_layoutInside (layout : Layout) (frame : Frame) (part : Node) :
    (frame.layoutInside layout part).isCompact = layout.isCompact := by
  cases frame with
  | function name front back =>
    rw [layoutInside, argumentLayout]
    split
    · exact layout.isCompact_nested
    · rfl
  | block | list | map | objectType => exact layout.isCompact_nested
  | _ => rfl

/-- The same for several frames. -/
theorem isCompact_layoutAt (layout : Layout) (frames : List Frame) (part : Node) :
    (layoutAt layout frames part).isCompact = layout.isCompact := by
  induction frames generalizing layout with
  | nil => rfl
  | cons frame frames ih => rw [layoutAt, ih, frame.isCompact_layoutInside]

/-- A node is printed around what stands in any place inside it. -/
theorem valueForm_fill (layout : Layout) (frames : List Frame) (part : Node) :
    ∃ ahead, ∀ other, Alike part other →
      valueForm layout (fill frames other)
        = ahead ++ valueForm (layoutAt layout frames part) other ++ formBehind layout frames part := by
  induction frames generalizing layout with
  | nil => exact ⟨[], fun other _ => by simp [fill, layoutAt, formBehind]⟩
  | cons frame frames ih =>
    obtain ⟨before, outer⟩ := frame.valueForm_fill layout (fill frames part)
    obtain ⟨ahead, same⟩ := ih (frame.layoutInside layout (fill frames part))
    refine ⟨before ++ ahead, fun other alike => ?_⟩
    have first := outer _ (alike_fill frames alike)
    rw [same other alike] at first
    simpa only [fill, List.foldr_cons, layoutAt, formBehind, List.append_assoc] using first

end Behind

end Node

end HclSyntax
