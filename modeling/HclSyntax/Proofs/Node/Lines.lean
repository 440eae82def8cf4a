import HclSyntax.Proofs.Node.SideBySide

/-!
# `HclSyntax.Proofs.Node.Lines`: the lines of a printed tree

For a tree that keeps nothing with a line feed in it (`Node.OnLine`), the lines are those of the
layout:

* `Node.render_block_add`: in the block layout, a deeper level of nesting puts the same white space
  in front of every line;
* `Node.render_compact`: in the compact layout, there is one line.

Both are a `LayoutRelation`. A deeper level hangs the lines after the first further in (`Text.hang`),
and of texts without a line feed it is enough that they have none.
-/

set_option autoImplicit false

namespace HclSyntax

/-! ### White space in front of every line -/

namespace Text

/-- White space in front of every line. -/
def indentLines (spaces : Nat) (text : Text) : Text :=
  join ['\n'] ((text.splitOn '\n').map (List.replicate spaces ' ' ++ ·))

/-- White space behind every line feed. -/
def hang (spaces : Nat) (text : Text) : Text :=
  text.flatMap fun c => if c = '\n' then '\n' :: List.replicate spaces ' ' else [c]

/-- A text is indented part by part. -/
theorem hang_append (spaces : Nat) (a b : Text) :
    (a ++ b).hang spaces = a.hang spaces ++ b.hang spaces :=
  List.flatMap_append

/-- Behind a line feed the spaces are put in. -/
theorem hang_feed (spaces : Nat) (text : Text) :
    hang spaces ('\n' :: text) = '\n' :: List.replicate spaces ' ' ++ text.hang spaces :=
  rfl

/-- In front of any other character none are. -/
theorem hang_cons {c : Char} (apart : c ≠ '\n') (spaces : Nat) (text : Text) :
    hang spaces (c :: text) = c :: text.hang spaces := by
  rw [hang, List.flatMap_cons, if_neg apart]
  rfl

/-- A text on one line stays as it is. -/
theorem hang_of_onLine {text : Text} (spaces : Nat) (h : '\n' ∉ text) :
    text.hang spaces = text := by
  induction text with
  | nil => rfl
  | cons c rest ih =>
    rw [hang_cons (List.ne_of_not_mem_cons h).symm, ih (List.not_mem_of_not_mem_cons h)]

/-- Behind the first piece each has the separator in front of it. -/
theorem join_cons (separator piece : Text) (rest : List Text) :
    join separator (piece :: rest) = piece ++ rest.flatMap (separator ++ ·) := by
  induction rest generalizing piece with
  | nil => exact (List.append_nil _).symm
  | cons next rest ih => rw [join, ih, List.flatMap_cons, List.append_assoc, List.append_assoc]

/-- White space behind every line feed stands in front of all lines but the first. -/
theorem hang_eq_lines (spaces : Nat) (text : Text) :
    ∃ line lines, text.splitOn '\n' = line :: lines
      ∧ text.hang spaces = line ++ lines.flatMap ('\n' :: List.replicate spaces ' ' ++ ·) := by
  induction text with
  | nil => exact ⟨[], [], rfl, rfl⟩
  | cons c rest ih =>
    obtain ⟨line, lines, split, hung⟩ := ih
    rw [List.splitOn_cons_eq_if_modifyHead, split]
    by_cases feed : c = '\n'
    · subst feed
      refine ⟨[], line :: lines, rfl, ?_⟩
      rw [hang_feed, hung, List.flatMap_cons, List.nil_append, List.append_assoc]
    · refine ⟨c :: line, lines, if_neg (by simpa using feed), ?_⟩
      rw [hang_cons feed, hung, List.cons_append]

/-- White space in front of every line is white space at the start and behind every line feed. -/
theorem indentLines_eq (spaces : Nat) (text : Text) :
    text.indentLines spaces = List.replicate spaces ' ' ++ text.hang spaces := by
  obtain ⟨line, lines, split, hung⟩ := hang_eq_lines spaces text
  rw [indentLines, split, List.map_cons, join_cons, List.flatMap_map, hung, List.append_assoc]
  rfl

example : indentLines 2 ['a', '\n', 'b'] = [' ', ' ', 'a', '\n', ' ', ' ', 'b'] := by decide

end Text

/-- A block layout, and the same some levels further in: every line has more white space in front. -/
def LayoutRelation.deeper (levels : Nat) : LayoutRelation where
  layouts layout other := ∃ level, layout = .block level ∧ other = .block (level + levels)
  texts text other := other = text.hang (2 * levels)
  compact := false
  isCompact := by
    rintro layout other ⟨level, rfl, rfl⟩
    exact ⟨rfl, rfl⟩
  nested := by
    rintro layout other ⟨level, rfl, rfl⟩
    exact ⟨level + 1, rfl, congrArg Layout.block (Nat.succ_add level levels).symm⟩
  onLine h := (Text.hang_of_onLine _ h).symm
  append := by
    rintro a a' b b' rfl rfl
    exact (Text.hang_append _ a b).symm
  lineBreak := by
    rintro layout other ⟨level, rfl, rfl⟩ -
    have wider : List.replicate (2 * (level + levels)) ' '
        = List.replicate (2 * levels) ' ' ++ List.replicate (2 * level) ' ' := by
      rw [List.replicate_append_replicate, Nat.mul_add, Nat.add_comm]
    have margin : '\n' ∉ List.replicate (2 * level) ' ' := fun mem =>
      absurd (List.eq_of_mem_replicate mem) (by decide)
    rw [Text.hang_feed, Layout.margin, Layout.margin, Text.hang_of_onLine _ margin, wider,
      List.cons_append]

/-- The compact layout keeps everything on one line. -/
def LayoutRelation.oneLine : LayoutRelation where
  layouts layout other := layout = .compact ∧ other = .compact
  texts text _ := '\n' ∉ text
  compact := true
  isCompact := by
    rintro layout other ⟨rfl, rfl⟩
    exact ⟨rfl, rfl⟩
  nested := by
    rintro layout other ⟨rfl, rfl⟩
    exact ⟨rfl, rfl⟩
  onLine h := h
  append ha hb := by
    rw [List.mem_append]
    exact not_or.mpr ⟨ha, hb⟩
  lineBreak _ block := by cases block

namespace Node

/-- Printing a tree some levels further in is printing it and putting the white space of these levels
in front of every line. -/
theorem render_block_add {node : Node} {naked : Bool} (onLine : node.OnLine !naked)
    (rootless : ∀ part ∈ node.inside, part.Everywhere fun part => part.isRoot = false)
    (nonempty : node ≠ .root []) (level levels : Nat) :
    node.render naked (.block (level + levels))
      = (node.render naked (.block level)).indentLines (2 * levels) := by
  have admitted : ∀ part ∈ node.inside, part.Everywhere (LayoutRelation.deeper levels).Admits :=
    fun part mem => (rootless part mem).mono fun part notRoot root => by
      rw [notRoot] at root
      cases root
  have layouts : (LayoutRelation.deeper levels).layouts (.block level) (.block (level + levels)) :=
    ⟨level, rfl, rfl⟩
  -- Both are printed behind a line feed, so that the first line is indented as well.
  have lines : '\n' :: node.render naked (.block (level + levels))
      = Text.hang (2 * levels) ('\n' :: node.render naked (.block level)) :=
    LayoutRelation.render layouts onLine admitted fun empty => absurd empty nonempty
  rw [Text.hang_feed, List.cons_append, List.cons.injEq] at lines
  rw [lines.2, Text.indentLines_eq]

/-- A call with a comment among its arguments, in a list, two levels further in. The line feed in the
string is escaped, so it breaks no line. -/
theorem render_block_add_call :
    let argument : Node := .string ['d', '\n']
    let call : Node := .function (some ['f']) [.comment .hash ['c'], argument]
    let tree : Node := .property .list ⟨['a'], false⟩ (.list [call])
    tree.OnLine true
      ∧ tree.render false (.block 3) = (tree.render false (.block 1)).indentLines 4 := by
  intro argument call tree
  have commentOnLine : (Node.comment .hash ['c']).OnLine false :=
    .intro (fun _ => List.forall_mem_singleton.mpr (by decide : '\n' ∉ ['c'])) (List.forall_mem_nil _)
  have noTemplate : Text.SequencesOnLine ['d', '\n'] := by
    intro sequence listed
    simp [Text.segments, Text.prependPlain, isTemplateMark] at listed
  have argumentOnLine : argument.OnLine false :=
    .intro (fun _ => List.forall_mem_singleton.mpr noTemplate) (List.forall_mem_nil _)
  have callOnLine : call.OnLine false :=
    .intro (fun _ => List.forall_mem_singleton.mpr (by decide : '\n' ∉ ['f']))
      (List.forall_mem_cons.mpr ⟨commentOnLine, List.forall_mem_singleton.mpr argumentOnLine⟩)
  have listOnLine : (Node.list [call]).OnLine false :=
    .intro (fun _ => List.forall_mem_nil _) (List.forall_mem_singleton.mpr callOnLine)
  have onLine : tree.OnLine true :=
    .intro (fun _ => List.forall_mem_singleton.mpr (by decide : '\n' ∉ ['a']))
      (List.forall_mem_singleton.mpr listOnLine)
  have leafRootless {leaf : Node} (isRoot : leaf.isRoot = false) (noParts : leaf.inside = []) :
      leaf.Everywhere fun part => part.isRoot = false :=
    .intro isRoot (noParts ▸ List.forall_mem_nil _)
  have callRootless : call.Everywhere fun part => part.isRoot = false :=
    .intro rfl (List.forall_mem_cons.mpr
      ⟨leafRootless rfl rfl, List.forall_mem_singleton.mpr (leafRootless rfl rfl)⟩)
  -- No template stands inside the tree.
  have rootless : ∀ part ∈ tree.inside, part.Everywhere fun part => part.isRoot = false :=
    List.forall_mem_singleton.mpr (.intro rfl (List.forall_mem_singleton.mpr callRootless))
  have nonempty : tree ≠ .root [] := by simp [tree]
  exact ⟨onLine, @render_block_add tree false onLine rootless nonempty 1 2⟩

/-- Every negative indent prints a tree on one line, and the same one. -/
theorem render_compact {node : Node} {naked : Bool} (onLine : node.OnLine !naked) {indent : Int}
    (negative : indent < 0) :
    '\n' ∉ node.render naked (.ofIndent indent)
      ∧ node.render naked (.ofIndent indent) = node.render naked (.ofIndent (-1)) := by
  obtain ⟨below, rfl⟩ := Int.eq_negSucc_of_lt_zero negative
  have admitted : node.Everywhere LayoutRelation.oneLine.Admits :=
    .of_closed (fun _ _ _ _ _ => rfl) fun _ => rfl
  have layouts : LayoutRelation.oneLine.layouts .compact .compact := ⟨rfl, rfl⟩
  have line : '\n' ∉ node.render naked .compact :=
    LayoutRelation.render layouts onLine (fun _ => admitted.of_mem_inside) fun _ => rfl
  exact ⟨line, rfl⟩

/-- A list with a template and a comment in it is on one line in a property whose name is left out
and would break the line. -/
theorem render_compact_naked :
    let comment : Node := .comment .doubleSlash ['b']
    let tree : Node := .property .list ⟨['a', '\n'], false⟩ (.list [.root [], comment])
    '\n' ∉ tree.render true (.ofIndent (-7))
      ∧ tree.render true (.ofIndent (-7)) = tree.render true (.ofIndent (-1)) := by
  intro comment tree
  have rootOnLine : (Node.root []).OnLine false :=
    .intro (fun _ => List.forall_mem_nil _) (List.forall_mem_nil _)
  have commentOnLine : comment.OnLine false :=
    .intro (fun _ => List.forall_mem_singleton.mpr (by decide : '\n' ∉ ['b'])) (List.forall_mem_nil _)
  have listOnLine : (Node.list [.root [], comment]).OnLine false :=
    .intro (fun _ => List.forall_mem_nil _)
      (List.forall_mem_cons.mpr ⟨rootOnLine, List.forall_mem_singleton.mpr commentOnLine⟩)
  have onLine : tree.OnLine false :=
    .intro (fun named => absurd (named rfl) (by decide)) (List.forall_mem_singleton.mpr listOnLine)
  exact @render_compact tree true onLine (-7) (by decide)

end Node

end HclSyntax
