import HclSyntax.Proofs.Node.Form
import HclSyntax.Proofs.Node.Pieces
import HclSyntax.Proofs.Text.Quoting
import Mathlib.Data.List.Forall2

/-!
# `HclSyntax.Proofs.Node.SideBySide`: one tree printed twice

A printed tree breaks its lines for two reasons: something that it keeps has a line feed in it, or
the layout asks for a new line. `Node.OnLine` rules out the first: whatever is printed of a tree apart
from its layout stays on its line.

What is left is the same tree printed in two layouts, side by side. A `LayoutRelation` is a relation
between texts that the printer cannot leave: it holds of a text without a line feed and itself, it
is closed under appending, and it knows the line breaks of its layouts. `LayoutRelation.valueForm` is
the induction over the tree, with one lemma for each bracket, separator and margin;
`LayoutRelation.render` adds the margin and the lead.
-/

set_option autoImplicit false

namespace HclSyntax

/-! ### Texts on one line -/

namespace Text

/-- No template sequence of a content holds a line feed. -/
def SequencesOnLine (content : Text) : Prop :=
  ∀ sequence, .template sequence ∈ segments false content → '\n' ∉ sequence

/-- A line feed is escaped, and no escape is written with one. -/
theorem feed_notMem_escapeChar (c : Char) : '\n' ∉ escapeChar c := by
  have letters : ∀ pair ∈ namedEscapes, '\n' ≠ pair.2 := by decide
  unfold escapeChar
  cases found : namedEscapes.lookup c with
  | some letter =>
    obtain ⟨front, back, split, -⟩ := List.lookup_eq_some_iff.mp found
    have apart := letters (c, letter) (by simp [split])
    simp [apart]
  | none =>
    intro inside
    obtain rfl := List.mem_singleton.mp inside
    exact absurd found (by decide)

/-- A quoted content is on one line exactly when its template sequences are. -/
theorem feed_notMem_quote_iff {content : Text} :
    '\n' ∉ content.quote ↔ content.SequencesOnLine := by
  have inside : '\n' ∈ content.quote
      ↔ ∃ segment ∈ segments false content, '\n' ∈ segmentSource segment := by
    rw [quote, escape_eq_flatMap]
    simp
  rw [inside]
  constructor
  · exact fun none sequence listed feed => none ⟨_, listed, feed⟩
  · rintro all ⟨segment, listed, feed⟩
    cases segment with
    | plain text =>
      obtain ⟨c, -, feed⟩ := List.mem_flatMap.mp feed
      exact feed_notMem_escapeChar c feed
    | template sequence => exact all sequence listed feed

end Text

/-- A piece is printed on one line: there is no line feed in it if it is printed as it is, and none
in a template sequence if it is quoted. A heredoc never is on one line. -/
def Piece.OnLine : Piece → Prop
  | .verbatim text => '\n' ∉ text
  | .comment _ text => '\n' ∉ text
  | .multilineComment text => '\n' ∉ text
  | .quotedType name => name.SequencesOnLine
  | .quoted content => content.SequencesOnLine
  | .label text => text.SequencesOnLine
  | .forLoop loop => ∀ part ∈ [[loop.opening], loop.bindings, loop.collection, loop.statements,
      loop.condition, [loop.closing]], '\n' ∉ part
  | .heredoc _ => False

/-- A name on one line is printed without a line feed. -/
theorem Name.feed_notMem_source {name : Name} (h : name.piece.OnLine) : '\n' ∉ name.source := by
  unfold piece at h
  unfold source
  split at h
  next quoted => rwa [if_pos quoted, Text.feed_notMem_quote_iff]
  next bare => rwa [if_neg bare]

/-- So is a label. -/
theorem BlockHeader.feed_notMem_labelSource {label : Option Text}
    (h : ∀ text ∈ label, text.SequencesOnLine) : '\n' ∉ source.labelSource label := by
  cases label with
  | none => exact List.not_mem_nil
  | some text =>
    have quote := Text.feed_notMem_quote_iff.mpr (h text rfl)
    simp [source.labelSource, quote]

/-- So is what a for expression prints in its brackets. -/
theorem ForLoop.feed_notMem_header {loop : ForLoop} (h : (Piece.forLoop loop).OnLine) :
    '\n' ∉ loop.header := by
  have parts : ∀ part ∈ [[loop.opening], loop.bindings, loop.collection, loop.statements,
      loop.condition, [loop.closing]], '\n' ∉ part := h
  simp only [List.forall_mem_cons] at parts
  obtain ⟨-, bindings, collection, statements, condition, -⟩ := parts
  have words : '\n' ∉ "for ".toList ∧ '\n' ∉ " in ".toList ∧ '\n' ∉ " : ".toList := by decide
  have behind : '\n' ∉ if loop.condition.isEmpty then [] else ' ' :: loop.condition := by
    split
    · exact List.not_mem_nil
    · exact List.not_mem_cons_of_ne_of_not_mem (by decide) condition
  unfold header
  simp only [List.mem_append, not_or]
  exact ⟨⟨⟨⟨⟨⟨words.1, bindings⟩, words.2.1⟩, collection⟩, words.2.2⟩, statements⟩, behind⟩

/-- So is a for expression with its brackets. -/
theorem ForLoop.feed_notMem_source {loop : ForLoop} (h : (Piece.forLoop loop).OnLine) :
    '\n' ∉ loop.source := by
  have opening : '\n' ≠ loop.opening := List.ne_of_not_mem_cons (h [loop.opening] (by simp))
  have closing : '\n' ≠ loop.closing := List.ne_of_not_mem_cons (h [loop.closing] (by simp))
  unfold source
  simp only [List.cons_append, List.mem_cons, List.mem_append, not_or]
  exact ⟨opening, feed_notMem_header h, closing, List.not_mem_nil⟩

namespace Node

/-- Whether a node is a whole template. -/
def isRoot : Node → Bool
  | .root _ => true
  | _ => false

/-- Whether what a node keeps itself is printed in its lead. -/
def keepsLead : Node → Bool
  | .block _ _ => true
  | .property _ _ _ => true
  | _ => false

/-- Whether the nodes directly inside a node are printed with their leads. -/
def declares : Node → Bool
  | .root _ => true
  | .block _ _ => true
  | .map _ => true
  | .objectType _ => true
  | _ => false

/-- Everything that is printed of a node is printed on one line, and so is everything inside it.
`named` says whether the node is printed with its lead; a lead that is left out may be anything. -/
inductive OnLine : Bool → Node → Prop
  | intro {named : Bool} {node : Node}
    (own : (node.keepsLead = true → named = true) → ∀ piece ∈ node.ownPieces, piece.OnLine)
    (inside : ∀ part ∈ node.inside, OnLine node.declares part) : OnLine named node

namespace OnLine

variable {named : Bool} {node : Node}

/-- What the node keeps itself is on one line, if it is printed. -/
theorem own (h : node.OnLine named) (kept : node.keepsLead = true → named = true) :
    ∀ piece ∈ node.ownPieces, piece.OnLine := by
  obtain ⟨own, -⟩ := h
  exact own kept

/-- The lead of a node on one line has no line feed. -/
theorem feed_notMem_lead (h : node.OnLine true) : '\n' ∉ node.lead := by
  have own := h.own fun _ => rfl
  cases node with
  | block header declarations =>
    simp only [ownPieces, List.forall_mem_append, List.forall_mem_cons, List.forall_mem_map,
      Option.mem_toList] at own
    obtain ⟨⟨name, label⟩, typeLabel⟩ := own
    have nameSource := Name.feed_notMem_source name
    have labelSource := BlockHeader.feed_notMem_labelSource label
    have typeLabelSource := BlockHeader.feed_notMem_labelSource typeLabel
    have word : '\n' ∉ "dynamic ".toList := by decide
    simp only [lead, BlockHeader.source, List.mem_append]
    split <;> simp_all
  | property kind name value =>
    have source := Name.feed_notMem_source (own name.piece (List.mem_singleton.mpr rfl))
    simp [lead, source]
  | _ => exact List.not_mem_nil

/-- A heredoc takes several lines. -/
theorem noHeredoc (h : node.OnLine named) : node.isHeredoc = false := by
  cases node with
  | heredoc doc => exact (h.own nofun (.heredoc doc) (List.mem_singleton.mpr rfl)).elim
  | _ => rfl

end OnLine

end Node

/-! ### Two printings side by side -/

/-- What two printings of a tree have in common: `layouts` relates the layouts that they are in, and
`texts` the texts that they print. -/
structure LayoutRelation where
  layouts : Layout → Layout → Prop
  texts : Text → Text → Prop
  /-- Whether the layouts are compact. -/
  compact : Bool
  isCompact {layout other : Layout} (h : layouts layout other) :
    layout.isCompact = compact ∧ other.isCompact = compact
  nested {layout other : Layout} (h : layouts layout other) : layouts layout.nested other.nested
  onLine {text : Text} (h : '\n' ∉ text) : texts text text
  append {a a' b b' : Text} (ha : texts a a') (hb : texts b b') : texts (a ++ b) (a' ++ b')
  lineBreak {layout other : Layout} (h : layouts layout other) (block : compact = false) :
    texts ('\n' :: layout.margin) ('\n' :: other.margin)

namespace LayoutRelation

variable {relation : LayoutRelation} {layout other : Layout}

/-- Texts stay related behind any character but a line feed. -/
theorem cons {c : Char} {a b : Text} (apart : '\n' ≠ c) (h : relation.texts a b) :
    relation.texts (c :: a) (c :: b) :=
  relation.append (relation.onLine (List.not_mem_cons_of_ne_of_not_mem apart List.not_mem_nil)) h

/-- A whole template takes no margin, so it may stand inside another node in compact layouts
only. -/
def Admits (relation : LayoutRelation) (node : Node) : Prop :=
  node.isRoot = true → relation.compact = true

/-- A node is printed alike in two layouts, up to its lead. -/
structure Prints (relation : LayoutRelation) (layout other : Layout) (node : Node) : Prop where
  admitted : relation.Admits node
  noHeredoc : node.isHeredoc = false
  value : relation.texts (node.valueForm layout) (node.valueForm other)

/-! #### Line breaks -/

/-- What stands in front of the margin of a line. -/
def lineStart (relation : LayoutRelation) : Text :=
  if relation.compact then [] else ['\n']

/-- Behind an opening bracket stands the start of a line. -/
theorem openingBreak_eq (h : relation.layouts layout other) :
    Node.openingBreak layout = relation.lineStart
      ∧ Node.openingBreak other = relation.lineStart := by
  simp only [Node.openingBreak, lineStart, relation.isCompact h, and_self]

/-- What stands between two declarations. -/
theorem separator_eq (h : relation.layouts layout other) :
    ∃ front, '\n' ∉ front ∧ layout.separator = front ++ relation.lineStart
      ∧ other.separator = front ++ relation.lineStart := by
  have same (layout : Layout) : layout.separator
      = (if layout.isCompact then [',', ' '] else []) ++ Node.openingBreak layout := by
    cases layout <;> rfl
  refine ⟨if relation.compact then [',', ' '] else [], by split <;> decide, ?_⟩
  rw [same layout, same other, (openingBreak_eq h).1, (openingBreak_eq h).2,
    (relation.isCompact h).1, (relation.isCompact h).2]
  exact ⟨rfl, rfl⟩

/-- What stands between two elements behind the comma. -/
theorem elementGap_eq (h : relation.layouts layout other) :
    ∃ front, '\n' ∉ front ∧ Node.elementGap layout = front ++ relation.lineStart
      ∧ Node.elementGap other = front ++ relation.lineStart := by
  refine ⟨if relation.compact then [' '] else [], by split <;> decide, ?_⟩
  simp only [Node.elementGap, lineStart, relation.isCompact h, and_self]
  split <;> rfl

/-- The breaks in front of a closing bracket are related. -/
theorem closingBreak (h : relation.layouts layout other) :
    relation.texts (Node.closingBreak layout) (Node.closingBreak other) := by
  unfold Node.closingBreak
  rw [(relation.isCompact h).1, (relation.isCompact h).2]
  cases compact : relation.compact with
  | true => exact relation.onLine List.not_mem_nil
  | false => exact relation.lineBreak h compact

/-- The start of a line in front of a node. -/
theorem margin {node : Node} (h : relation.layouts layout other) (admitted : relation.Admits node) :
    relation.texts (relation.lineStart ++ node.margin layout)
      (relation.lineStart ++ node.margin other) := by
  have isCompact := relation.isCompact h
  cases compact : relation.compact with
  | true =>
    -- In the compact layout no node has a margin.
    have none {layout : Layout} (hl : layout.isCompact = true) : node.margin layout = [] := by
      cases layout with
      | compact => cases node <;> rfl
      | block level => cases hl
    rw [none (isCompact.1.trans compact), none (isCompact.2.trans compact), lineStart, compact]
    exact relation.onLine List.not_mem_nil
  | false =>
    have own (layout : Layout) : node.margin layout = layout.margin := by
      cases node with
      | root => exact absurd (admitted rfl) (by simp [compact])
      | _ => rfl
    rw [own, own, lineStart, compact]
    exact relation.lineBreak h compact

/-! #### Sequences -/

/-- Pieces are related when each of them is, with the start of its line in front of it. -/
theorem join {start front : Text} (onLine : '\n' ∉ front) {pieces others : List Text}
    (nonempty : pieces = [] → relation.texts start start)
    (each : List.Forall₂ (fun a b => relation.texts (start ++ a) (start ++ b)) pieces others) :
    relation.texts (start ++ Text.join (front ++ start) pieces)
      (start ++ Text.join (front ++ start) others) := by
  induction each with
  | nil => simpa [Text.join] using nonempty rfl
  | cons first rest ih =>
    cases rest with
    | nil => exact first
    | cons next rest =>
      have behind := relation.append (relation.onLine onLine) (ih (by simp))
      simpa only [Text.join, List.append_assoc] using relation.append first behind

/-- Pieces on one line. -/
theorem joinLine {separator : Text} (onLine : '\n' ∉ separator) {pieces others : List Text}
    (each : List.Forall₂ relation.texts pieces others) :
    relation.texts (Text.join separator pieces) (Text.join separator others) := by
  have line := @join relation [] separator onLine pieces others
    (fun _ => relation.onLine List.not_mem_nil) each
  rwa [List.append_nil, List.nil_append, List.nil_append] at line

/-- Texts that are printed for some nodes, in order. -/
theorem forall₂_map {holds : Text → Text → Prop} {nodes : List Node} {form form' : Node → Text}
    (each : ∀ node ∈ nodes, holds (form node) (form' node)) :
    List.Forall₂ holds (nodes.map form) (nodes.map form') := by
  rw [List.forall₂_map_left_iff, List.forall₂_map_right_iff, List.forall₂_same]
  exact each

variable {nodes : List Node}

/-- Declarations on lines of their own. -/
theorem sequenceForm (h : relation.layouts layout other)
    (leads : ∀ node ∈ nodes, '\n' ∉ node.lead)
    (prints : ∀ node ∈ nodes, relation.Prints layout other node)
    (nonempty : nodes = [] → relation.compact = true) :
    relation.texts (relation.lineStart ++ Node.sequenceForm layout (Node.forms layout nodes))
      (relation.lineStart ++ Node.sequenceForm other (Node.forms other nodes)) := by
  obtain ⟨front, onLine, separator, separator'⟩ := separator_eq h
  rw [Node.sequenceForm, Node.sequenceForm, separator, separator', Node.forms_eq_map,
    Node.forms_eq_map, List.map_map, List.map_map]
  refine join onLine (fun empty => ?_) (forall₂_map fun node mem => ?_)
  · rw [lineStart, if_pos (nonempty (List.map_eq_nil_iff.mp empty))]
    exact relation.onLine List.not_mem_nil
  · obtain ⟨admitted, -, value⟩ := prints node mem
    have lead := relation.onLine (leads node mem)
    have line := relation.append (relation.append (margin h admitted) lead) value
    simpa only [Function.comp_apply, List.append_assoc] using line

/-- The lines of elements: a comma, or nothing, ends all but the last one. -/
theorem withCommas (h : relation.layouts layout other)
    (prints : ∀ node ∈ nodes, relation.Prints layout other node) :
    List.Forall₂ (fun a b => relation.texts (relation.lineStart ++ a) (relation.lineStart ++ b))
      (Node.withCommas layout (Node.forms layout nodes))
      (Node.withCommas other (Node.forms other nodes)) := by
  induction nodes with
  | nil => exact .nil
  | cons node rest ih =>
    obtain ⟨admitted, -, value⟩ := prints node (by simp)
    have line := relation.append (margin h admitted) value
    -- Only the last element has no comma behind it.
    cases rest with
    | nil =>
      rw [List.append_assoc, List.append_assoc] at line
      exact .cons line .nil
    | cons next rest =>
      have comma : '\n' ∉ if node.isComment then [] else [','] := by split <;> decide
      have ended := relation.append line (relation.onLine comma)
      simp only [List.append_assoc] at ended
      refine .cons ?_ (ih fun node mem => prints node (List.mem_cons_of_mem _ mem))
      simpa only [List.append_assoc] using ended

/-- Elements one level further in. -/
theorem elements (h : relation.layouts layout other)
    (prints : ∀ node ∈ nodes, relation.Prints layout.nested other.nested node)
    (nonempty : nodes ≠ []) :
    relation.texts
      (relation.lineStart ++ Text.join (Node.elementGap layout)
        (Node.withCommas layout.nested (Node.forms layout.nested nodes)))
      (relation.lineStart ++ Text.join (Node.elementGap other)
        (Node.withCommas other.nested (Node.forms other.nested nodes))) := by
  obtain ⟨front, onLine, gap, gap'⟩ := elementGap_eq h
  rw [gap, gap']
  refine join onLine (fun empty => ?_) (withCommas (relation.nested h) prints)
  match nodes, nonempty with
  | [_], _ => cases empty
  | _ :: _ :: _, _ => cases empty

/-! #### Brackets -/

/-- What stands behind an opening bracket, with the closing one. -/
theorem bracket (h : relation.layouts layout other) {close : Char} (apart : '\n' ≠ close)
    {a b : Text} (lines : relation.texts (relation.lineStart ++ a) (relation.lineStart ++ b)) :
    relation.texts (Node.openingBreak layout ++ (a ++ (Node.closingBreak layout ++ [close])))
      (Node.openingBreak other ++ (b ++ (Node.closingBreak other ++ [close]))) := by
  have closed := relation.append (closingBreak h) (cons apart (relation.onLine List.not_mem_nil))
  have whole := relation.append lines closed
  rw [List.append_assoc, List.append_assoc] at whole
  rwa [(openingBreak_eq h).1, (openingBreak_eq h).2]

/-- The bodies of two printed blocks are related where their declarations are. -/
theorem bodyForm (h : relation.layouts layout other) (leads : ∀ node ∈ nodes, '\n' ∉ node.lead)
    (prints : ∀ node ∈ nodes, relation.Prints layout.nested other.nested node) :
    relation.texts (Node.bodyForm layout (Node.forms layout.nested nodes))
      (Node.bodyForm other (Node.forms other.nested nodes)) := by
  cases nodes with
  | nil => exact relation.onLine (by decide : '\n' ∉ ['{', '}'])
  | cons node rest =>
    have lines := sequenceForm (relation.nested h) leads prints (by simp)
    rw [Node.bodyForm_eq (by simp [Node.forms_cons]), Node.bodyForm_eq (by simp [Node.forms_cons])]
    exact cons (by decide) (bracket h (by decide) lines)

/-- Two printed lists are related where their elements are. -/
theorem listForm (h : relation.layouts layout other)
    (prints : ∀ node ∈ nodes, relation.Prints layout.nested other.nested node) :
    relation.texts (Node.listForm layout (Node.forms layout.nested nodes))
      (Node.listForm other (Node.forms other.nested nodes)) := by
  cases nodes with
  | nil => exact relation.onLine (by decide : '\n' ∉ ['[', ']'])
  | cons node rest =>
    have lines := elements h prints (List.cons_ne_nil _ _)
    rw [Node.listForm_eq (by simp [Node.forms_cons]), Node.listForm_eq (by simp [Node.forms_cons])]
    exact cons (by decide) (bracket h (by decide) lines)

/-- The arguments of a call, on lines of their own or on the line of the call. -/
theorem argumentsForm (h : relation.layouts layout other)
    (prints : ∀ node ∈ nodes, relation.Prints layout other node)
    (printsNested : ∀ node ∈ nodes, relation.Prints layout.nested other.nested node) :
    relation.texts
      (Node.argumentsForm layout (Node.forms (Node.argumentLayout layout nodes) nodes))
      (Node.argumentsForm other (Node.forms (Node.argumentLayout other nodes) nodes)) := by
  -- Both layouts break the lines of the arguments, or neither does.
  have same : Node.needsLines other nodes = Node.needsLines layout nodes := by
    rw [Node.needsLines_eq, Node.needsLines_eq, (relation.isCompact h).1, (relation.isCompact h).2]
  cases needed : Node.needsLines layout nodes with
  | true =>
    rw [needed] at same
    have block : relation.compact = false := by
      rw [Node.needsLines_eq, (relation.isCompact h).1] at needed
      simpa using (Bool.and_eq_true_iff.mp needed).1
    have nonempty : nodes ≠ [] := by
      rintro rfl
      simp [Node.needsLines] at needed
    have lines := bracket h (by decide : '\n' ≠ ')') (elements h printsNested nonempty)
    rw [Node.argumentsForm_lines needed, Node.argumentsForm_lines same]
    simp only [Node.openingBreak, Node.elementGap, relation.isCompact h, block] at lines
    exact cons (by decide) lines
  | false =>
    rw [needed] at same
    rw [Node.argumentsForm_oneLine needed, Node.argumentsForm_oneLine same]
    have line := joinLine (by decide : '\n' ∉ [',', ' '])
      (forall₂_map fun node mem => (prints node mem).value)
    exact cons (by decide) (relation.append line (relation.onLine (by decide)))

/-! #### Terms -/

/-- The terms behind a term are related, unless that is a heredoc. -/
theorem joinTerms {before : Option Node} {previous : Node} (noHeredoc : previous.isHeredoc = false)
    (prints : ∀ node ∈ nodes, relation.Prints layout other node) :
    relation.texts (Node.joinTerms layout before previous (Node.forms layout nodes))
      (Node.joinTerms other before previous (Node.forms other nodes)) := by
  induction nodes generalizing before previous with
  | nil => exact relation.onLine List.not_mem_nil
  | cons term rest ih =>
    obtain ⟨-, apart, value⟩ := prints term (by simp)
    have others := @ih (some previous) term apart fun node mem =>
      prints node (List.mem_cons_of_mem _ mem)
    -- Behind anything but a heredoc the gap is a space or nothing.
    have gap : relation.texts (Node.gap layout before previous term)
        (Node.gap other before previous term) := by
      simp only [Node.gap_eq, noHeredoc, Bool.false_and, Bool.false_eq_true, if_false]
      exact relation.onLine (by split <;> decide)
    rw [Node.joinTerms_cons, Node.joinTerms_cons]
    exact relation.append (relation.append gap value) others

/-- Two printed expressions are related where their terms are. -/
theorem termsForm (prints : ∀ node ∈ nodes, relation.Prints layout other node) :
    relation.texts (Node.termsForm layout nodes) (Node.termsForm other nodes) := by
  cases nodes with
  | nil => exact relation.onLine List.not_mem_nil
  | cons term rest =>
    obtain ⟨-, noHeredoc, value⟩ := prints term (by simp)
    rw [Node.termsForm_cons, Node.termsForm_cons]
    exact relation.append value (joinTerms noHeredoc fun node mem =>
      prints node (List.mem_cons_of_mem _ mem))

/-! #### The whole tree -/

/-- A comment in brackets stays on its line. -/
theorem bracketedComment {text : Text} (onLine : '\n' ∉ text) :
    relation.texts ("/*".toList ++ text ++ "*/".toList) ("/*".toList ++ text ++ "*/".toList) :=
  relation.append (relation.append (relation.onLine (by decide)) (relation.onLine onLine))
    (relation.onLine (by decide))

/-- A comment that ends with its line is put between brackets in the compact layout. -/
theorem comment {style : CommentStyle} {text : Text} (h : relation.layouts layout other)
    (onLine : '\n' ∉ text) :
    relation.texts (Node.valueForm layout (.comment style text))
      (Node.valueForm other (.comment style text)) := by
  have eq (layout : Layout) : Node.valueForm layout (.comment style text)
      = if layout.isCompact then "/*".toList ++ text ++ "*/".toList else style.marker ++ text := by
    cases layout <;> rfl
  have marker : '\n' ∉ style.marker := by cases style <;> decide
  rw [eq, eq, (relation.isCompact h).1, (relation.isCompact h).2]
  split
  · exact bracketedComment onLine
  · exact relation.append (relation.onLine marker) (relation.onLine onLine)

/-- The value forms of a tree are related. -/
theorem valueForm {node : Node} {named : Bool} (h : relation.layouts layout other)
    (onLine : node.OnLine named) (admitted : node.Everywhere relation.Admits) :
    relation.texts (node.valueForm layout) (node.valueForm other) := by
  induction onLine generalizing layout other with
  | @intro named node own inside ih =>
    have prints {layout other : Layout} (h : relation.layouts layout other) :
        ∀ part ∈ node.inside, relation.Prints layout other part := fun part mem =>
      have within := admitted.of_mem_inside mem
      ⟨within.here, (inside part mem).noHeredoc, ih part mem h within⟩
    have nested := prints (relation.nested h)
    have leads (declares : node.declares = true) : ∀ part ∈ node.inside, '\n' ∉ part.lead :=
      fun part mem => (declares ▸ inside part mem).feed_notMem_lead
    -- A leaf keeps one piece, and prints it in either layout.
    have leaf {piece : Piece} (mem : piece ∈ node.ownPieces) (value : node.keepsLead = false) :
        piece.OnLine := own (fun lead => by rw [value] at lead; cases lead) piece mem
    cases node with
    | root declarations =>
      have compact := admitted.here rfl
      have lines := sequenceForm h (leads rfl) (prints h) fun _ => compact
      rwa [lineStart, if_pos compact] at lines
    | block header declarations => exact bodyForm h (leads rfl) nested
    | comment style text =>
      exact comment h (@leaf (.comment style text) (List.mem_singleton.mpr rfl) rfl)
    | multilineComment text => exact bracketedComment (leaf (List.mem_singleton.mpr rfl) rfl)
    | string content =>
      exact relation.onLine (Text.feed_notMem_quote_iff.mpr (leaf (List.mem_singleton.mpr rfl) rfl))
    | unquotedString text | numberOrBool text | mathSymbol text =>
      exact relation.onLine (leaf (List.mem_singleton.mpr rfl) rfl)
    | unquotedExpression terms => exact termsForm (prints h)
    | list elements => exact listForm h nested
    | map entries => exact bodyForm h (leads rfl) nested
    | forLoop loop =>
      exact relation.onLine (ForLoop.feed_notMem_source (leaf (List.mem_singleton.mpr rfl) rfl))
    | function name arguments =>
      have word : '\n' ∉ name.getD [] := by
        cases name with
        | none => exact List.not_mem_nil
        | some name => exact leaf (List.mem_singleton.mpr rfl) rfl
      exact relation.append (relation.onLine word) (argumentsForm h (prints h) nested)
    | heredoc doc => exact (leaf (List.mem_singleton.mpr rfl) rfl).elim
    | primitiveType name quoted =>
      have piece := leaf (List.mem_singleton.mpr rfl) rfl
      rw [Node.valueForm_primitiveType, Node.valueForm_primitiveType]
      split at piece
      next quoted => exact relation.onLine (by rwa [if_pos quoted, Text.feed_notMem_quote_iff])
      next bare => exact relation.onLine (by rwa [if_neg bare])
    | objectType members =>
      have word : '\n' ∉ "object(".toList := by decide
      have closed := relation.onLine (by decide : '\n' ∉ [')'])
      exact relation.append (relation.append (relation.onLine word) (bodyForm h (leads rfl) nested))
        closed
    | collectionType collection element =>
      have word : '\n' ∉ collection.word := by cases collection <;> decide
      have closed := relation.onLine (by decide : '\n' ∉ [')'])
      have form := (prints h element (List.mem_singleton.mpr rfl)).value
      rw [Node.valueForm_collectionType, Node.valueForm_collectionType, List.append_assoc,
        List.append_assoc]
      exact relation.append (relation.onLine word) (cons (by decide) (relation.append form closed))
    | tupleType elements =>
      have word : '\n' ∉ "tuple([".toList := by decide
      have closed := relation.onLine (by decide : '\n' ∉ [']', ')'])
      have line := joinLine (by decide : '\n' ∉ [',', ' '])
        (forall₂_map fun element mem => (prints h element mem).value)
      rw [Node.valueForm_tupleType, Node.valueForm_tupleType, Node.forms_map_snd,
        Node.forms_map_snd]
      exact relation.append (relation.append (relation.onLine word) line) closed
    | property kind name value => exact (prints h value (List.mem_singleton.mpr rfl)).value

/-- The lines of a printed node are related, with the start of the first in front of it. -/
theorem render {node : Node} {naked : Bool} (h : relation.layouts layout other)
    (onLine : node.OnLine !naked) (admitted : ∀ part ∈ node.inside, part.Everywhere relation.Admits)
    (nonempty : node = .root [] → relation.compact = true) :
    relation.texts (relation.lineStart ++ node.render naked layout)
      (relation.lineStart ++ node.render naked other) := by
  -- Anything but a whole template has the margin, its lead and its form in a row.
  have whole (here : relation.Admits node) :
      relation.texts (relation.lineStart ++ node.render naked layout)
        (relation.lineStart ++ node.render naked other) := by
    have lead : '\n' ∉ if naked then [] else node.lead := by
      cases naked with
      | true => exact List.not_mem_nil
      | false => exact onLine.feed_notMem_lead
    have line := relation.append (relation.append (margin h here) (relation.onLine lead))
      (valueForm h onLine (.intro here admitted))
    simpa only [Node.render, List.append_assoc] using line
  cases node with
  | root declarations =>
    have eq (layout : Layout) : (Node.root declarations).render naked layout
        = Node.sequenceForm layout (Node.forms layout declarations) := by cases naked <;> rfl
    obtain ⟨-, inside⟩ := onLine
    rw [eq, eq]
    refine sequenceForm h (fun part mem => (inside part mem).feed_notMem_lead) (fun part mem => ?_)
      fun empty => nonempty (by rw [empty])
    exact ⟨(admitted part mem).here, (inside part mem).noHeredoc,
      valueForm h (inside part mem) (admitted part mem)⟩
  | _ => exact whole nofun

end LayoutRelation

end HclSyntax
