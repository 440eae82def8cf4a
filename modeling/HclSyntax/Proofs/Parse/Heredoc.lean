import HclSyntax.Proofs.Node.Frame
import HclSyntax.Proofs.Parse.WellFormed

/-!
# `HclSyntax.Proofs.Parse.Heredoc`: printed heredocs end their lines

The closing marker of a heredoc must end its line. `Node.HeredocsEndLines` says of a layout that it does
so for every heredoc in a tree: what is printed around the place where the heredoc stands goes on behind
the marker with a text that may follow it.

The compact layout prints a line break with each heredoc. The block layout leaves it to whatever
follows, and looks only at the terms and arguments that are heredocs themselves. A heredoc that a term or
an argument ends with further inside keeps its line only if nothing follows that term or argument
(`Node.HeredocsLast`), and this is exactly when every heredoc of a template that was read ends its line
(`parse_heredocsEndLines_iff`).

Both halves go along the frames around a heredoc. From the inside out, `formBehind_cases` keeps that
either a line break comes first behind the marker, or nothing has come yet but what may follow it, and
then the marker is still the end of the form. For the converse, what is printed behind a term that ends
with a heredoc starts with a gap and a character that may not follow a marker (`heredocsLast_of_places`).
-/

set_option autoImplicit false

namespace HclSyntax

namespace Grammar

/-! ### Text behind a closing marker -/

/-- A line of the text ends, and all before that may follow a closing marker. -/
def EndsLine (text : Text) : Prop :=
  ∃ front rest, text = front ++ '\n' :: rest ∧ ∀ c ∈ front, mayFollowMarker c = true

/-- A line feed ends the line. -/
theorem endsLine_feed (rest : Text) : EndsLine ('\n' :: rest) :=
  ⟨[], rest, rfl, nofun⟩

/-- What follows on later lines does not matter. -/
theorem EndsLine.append {text : Text} (h : EndsLine text) (more : Text) : EndsLine (text ++ more) := by
  obtain ⟨front, rest, rfl, closers⟩ := h
  exact ⟨front, rest ++ more, by simp, closers⟩

/-- Closing brackets and commas may stand in front. -/
theorem EndsLine.behind {front text : Text} (h : EndsLine text)
    (closers : ∀ c ∈ front, mayFollowMarker c = true) : EndsLine (front ++ text) := by
  obtain ⟨more, rest, rfl, others⟩ := h
  exact ⟨front ++ more, rest, by simp, List.forall_mem_append.mpr ⟨closers, others⟩⟩

/-- The line of a closing marker may end so. -/
theorem EndsLine.closesLine {text : Text} (h : EndsLine text) : ClosesLine text := by
  obtain ⟨front, rest, rfl, closers⟩ := h
  induction front with
  | nil => exact closesLine_feed rest
  | cons c front ih =>
    obtain ⟨first, closers⟩ := List.forall_mem_cons.mp closers
    by_cases feed : c = '\n'
    · subst feed
      exact closesLine_feed _
    · exact closesLine_cons first feed (ih closers)

/-- It may also end with the text. -/
theorem closesLine_of_forall {text : Text} (closers : ∀ c ∈ text, mayFollowMarker c = true) :
    ClosesLine text := by
  refine List.all_eq_true.mpr fun c mem => closers c ?_
  rw [← Text.splitLine_append text]
  exact List.mem_append_left _ mem

/-- Something that may not follow a closing marker stands on the first line of the text. -/
def Obstructs (text : Text) : Prop :=
  ∃ front c rest, text = front ++ c :: rest ∧ '\n' ∉ front ∧ mayFollowMarker c = false

/-- What obstructs the first line does so whatever follows. -/
theorem Obstructs.append {text : Text} (h : Obstructs text) (more : Text) : Obstructs (text ++ more) := by
  obtain ⟨front, c, rest, rfl, noFeed, obstructs⟩ := h
  exact ⟨front, c, rest ++ more, by simp, noFeed, obstructs⟩

/-- It does so behind anything else on that line. -/
theorem Obstructs.behind {front text : Text} (h : Obstructs text) (noFeed : '\n' ∉ front) :
    Obstructs (front ++ text) := by
  obtain ⟨more, c, rest, rfl, others, obstructs⟩ := h
  exact ⟨front ++ more, c, rest, by simp, by simp [noFeed, others], obstructs⟩

/-- A closing marker must not stand in front of it. -/
theorem Obstructs.not_closesLine {text : Text} (h : Obstructs text) : ¬ ClosesLine text := by
  obtain ⟨front, c, rest, rfl, noFeed, obstructs⟩ := h
  have notFeed : c ≠ '\n' := by
    rintro rfl
    exact absurd obstructs (by decide)
  rw [ClosesLine, Text.splitLine_append_of_notMem noFeed, Text.splitLine_cons notFeed]
  simp [obstructs]

end Grammar

namespace Node

open Grammar

/-! ### Heredocs that stand last -/

/-- A term of an expression that another follows ends with a heredoc only if it is one, and an argument
that another follows on its line does not. -/
def HeredocsLast : Node → Prop
  | .unquotedExpression terms => ∀ term ∈ terms.dropLast,
      term.endsInHeredoc = true → term.isHeredoc = true
  | .function _ arguments => onOneLine arguments = true →
      ∀ argument ∈ arguments.dropLast, argument.endsInHeredoc = false
  | _ => True

/-- A node with a heredoc in it is neither a comment nor an operator symbol. -/
theorem not_leaf_of_heredoc (frames : List Frame) (doc : Heredoc) :
    (fill frames (.heredoc doc)).isComment = false
      ∧ (fill frames (.heredoc doc)).kind ≠ .mathSymbol := by
  cases frames with
  | nil => exact ⟨rfl, by rintro ⟨⟩⟩
  | cons frame frames =>
    cases frame with
    | property kind => cases kind <;> exact ⟨rfl, by rintro ⟨⟩⟩
    | collectionType collection => cases collection <;> exact ⟨rfl, by rintro ⟨⟩⟩
    | _ => exact ⟨rfl, by rintro ⟨⟩⟩

/-- No heredoc stands in a type constraint. -/
theorem not_isType_of_heredoc {frames : List Frame} {doc : Heredoc}
    (fits : (fill frames (.heredoc doc)).Everywhere Fits) :
    (fill frames (.heredoc doc)).kind.isType = false
      ∧ (fill frames (.heredoc doc)).kind ≠ .typeProperty := by
  induction frames with
  | nil => exact ⟨rfl, by rintro ⟨⟩⟩
  | cons frame frames ih =>
    have fitsHere := fits.here
    obtain ⟨noType, noMember⟩ := ih (fits.of_mem_inside (frame.mem_inside_fill _))
    have noComment := (not_leaf_of_heredoc frames doc).1
    rw [fill, List.foldr_cons, ← fill] at fitsHere ⊢
    generalize fill frames (.heredoc doc) = part at fitsHere noType noMember noComment
    -- Around a heredoc stands no type, since inside a type stand types and comments only.
    cases frame with
    | objectType front back =>
      rcases fitsHere part (by simp) with comment | member
      · simp [noComment] at comment
      · exact absurd member noMember
    | collectionType collection => simp [Frame.fill, Fits, noType] at fitsHere
    | tupleType front back => simpa [noType] using fitsHere part (by simp)
    | property kind name =>
      cases kind with
      | type => simp [Frame.fill, Fits, FitsProperty, noType] at fitsHere
      | _ => exact ⟨rfl, by rintro ⟨⟩⟩
    | _ => exact ⟨rfl, by rintro ⟨⟩⟩

/-! ### Behind a heredoc that stands last -/

section Block

variable {layout : Layout} (block : layout.isCompact = false)

include block

/-- The break in front of a closing bracket ends the line. -/
theorem endsLine_closingBreak (more : Text) : EndsLine (closingBreak layout ++ more) := by
  rw [closingBreak, block]
  exact endsLine_feed _

/-- Behind a declaration stands nothing, or its line ends. -/
theorem declarationsBehind_cases (back : List Node) :
    declarationsBehind layout back = [] ∨ EndsLine (declarationsBehind layout back) := by
  cases back with
  | nil => exact .inl rfl
  | cons next back =>
    obtain ⟨level, rfl⟩ : ∃ level, layout = .block level := by
      cases layout with
      | compact => cases block
      | block level => exact ⟨level, rfl⟩
    exact .inr (endsLine_feed _)

/-- The line of a declaration in a body ends. -/
theorem endsLine_bodyBehind (back : List Node) : EndsLine (bodyBehind layout back) := by
  have closes := endsLine_closingBreak block ['}']
  have nested : layout.nested.isCompact = false := by rw [layout.isCompact_nested, block]
  rw [bodyBehind, List.append_assoc]
  rcases declarationsBehind_cases nested back with none | ends
  · rwa [none]
  · exact ends.append _

/-- The line of an element on its own line ends. -/
theorem endsLine_elementsBehind (part : Node) (back : List Node) (more : Text) :
    EndsLine (elementsBehind layout.nested part back ++ (closingBreak layout ++ more)) := by
  have gap : elementGap layout.nested = ['\n'] := by simp [elementGap, block]
  rw [elementsBehind, gap, List.append_assoc]
  refine EndsLine.behind ?_ ?_
  · cases withCommas layout.nested (forms layout.nested back) with
    | nil => exact endsLine_closingBreak block more
    | cons piece pieces => exact endsLine_feed _
  · have comma : mayFollowMarker ',' = true := by decide
    split <;> simp [comma]

/-- Behind a heredoc a line break stands in front of the next term. -/
theorem endsLine_joinTerms (before : Option Node) {part : Node} (heredoc : part.isHeredoc = true)
    (next : Node) (back : List Node) :
    EndsLine (joinTerms layout before part (forms layout (next :: back))) := by
  rw [joinTerms_cons, gap_eq, heredoc, block]
  exact endsLine_feed _

/-- What a node of a parsed tree puts behind a part with a heredoc in it: a line break as soon as the
part does not end with the heredoc, and otherwise something that may follow a closing marker. -/
theorem Frame.formBehind_cases {frame : Frame} {part : Node} (fits : (frame.fill part).Fits)
    (last : (frame.fill part).HeredocsLast) (noType : part.kind.isType = false)
    (noSymbol : part.kind ≠ .mathSymbol) (ends : part.FitsElement → part.endsInHeredoc = true) :
    EndsLine (frame.formBehind layout part)
      ∨ (∀ c ∈ frame.formBehind layout part, mayFollowMarker c = true)
        ∧ ((frame.fill part).FitsElement → (frame.fill part).endsInHeredoc = true) := by
  have parenthesis : mayFollowMarker ')' = true := by decide
  have followed {front back : List Node} {next : Node} :
      part ∈ (front ++ part :: next :: back).dropLast := by
    simp
  cases frame with
  | root front back =>
    rcases declarationsBehind_cases block back with none | ends
    · refine .inr ⟨by simp [formBehind, none], fun element => absurd element ?_⟩
      simp [fill, FitsElement, isComment, Node.kind, Kind.isTerm]
    · exact .inl ends
  | block header front back => exact .inl (endsLine_bodyBehind block back)
  | map front back => exact .inl (endsLine_bodyBehind block back)
  | objectType front back => exact .inl ((endsLine_bodyBehind block back).append _)
  | list front back =>
    rw [formBehind, List.append_assoc]
    exact .inl (endsLine_elementsBehind block part back [']'])
  | property kind name =>
    -- A property is no element, and the declarations that stand around it put a line break behind it.
    refine .inr ⟨by simp [formBehind], fun element => absurd element ?_⟩
    cases kind <;> simp [fill, FitsElement, isComment, Node.kind, PropertyKind.kind, Kind.isTerm]
  | collectionType collection => simp [fill, Fits, noType] at fits
  | tupleType front back => simpa [noType] using fits part (by simp)
  | unquotedExpression front back =>
    have endsHere := ends (.inr (.inl ((fits.2 part (by simp)).resolve_left noSymbol)))
    cases back with
    | nil =>
      refine .inr ⟨by simp [formBehind, forms, joinTerms], fun _ => ?_⟩
      rw [fill, endsInHeredoc, lastEndsInHeredoc_eq]
      simpa using endsHere
    | cons next back =>
      exact .inl (endsLine_joinTerms block _ (last part followed endsHere) next back)
  | function name front back =>
    rw [formBehind, argumentsBehind, needsLines_eq, block]
    cases oneLine : onOneLine (front ++ part :: back) with
    | false =>
      rw [if_pos (by simp), List.append_assoc]
      exact .inl (endsLine_elementsBehind block part back [')'])
    | true =>
      rw [if_neg (by simp)]
      have endsHere := ends (fits part (by simp))
      cases back with
      | nil =>
        refine .inr ⟨by simpa using parenthesis, fun _ => ?_⟩
        rw [fill, endsInHeredoc, oneLine, lastEndsInHeredoc_eq]
        simpa using endsHere
      | cons next back =>
        rw [last oneLine part followed] at endsHere
        cases endsHere

/-- Behind a heredoc in a parsed tree, either a line break comes first or nothing but what may follow a
closing marker; and then an element ends with the heredoc. -/
theorem formBehind_cases {frames : List Frame} {doc : Heredoc}
    (fits : (fill frames (.heredoc doc)).Everywhere Fits)
    (last : (fill frames (.heredoc doc)).Everywhere HeredocsLast) :
    EndsLine (formBehind layout frames (.heredoc doc))
      ∨ (∀ c ∈ formBehind layout frames (.heredoc doc), mayFollowMarker c = true)
        ∧ ((fill frames (.heredoc doc)).FitsElement →
            (fill frames (.heredoc doc)).endsInHeredoc = true) := by
  induction frames generalizing layout with
  | nil => exact .inr ⟨by simp [formBehind], fun _ => rfl⟩
  | cons frame frames ih =>
    have mem := frame.mem_inside_fill (fill frames (.heredoc doc))
    have blockInside : (frame.layoutInside layout (fill frames (.heredoc doc))).isCompact = false := by
      rw [frame.isCompact_layoutInside, block]
    rw [formBehind]
    -- What ends the line inside the frame ends it, and otherwise the frame decides.
    rcases ih blockInside (fits.of_mem_inside mem) (last.of_mem_inside mem) with ends | ⟨closers, ends⟩
    · exact .inl (ends.append _)
    · obtain ⟨noType, -⟩ := not_isType_of_heredoc (fits.of_mem_inside mem)
      rcases Frame.formBehind_cases block fits.here last.here noType (not_leaf_of_heredoc frames doc).2
        ends with endsLine | ⟨others, endsOuter⟩
      · exact .inl (endsLine.behind closers)
      · exact .inr ⟨List.forall_mem_append.mpr ⟨closers, others⟩, endsOuter⟩

end Block

/-! ### Behind a heredoc that does not -/

/-- A node whose form ends with a heredoc holds one that no line break follows. -/
theorem exists_fill_of_endsInHeredoc {node : Node} (ends : node.endsInHeredoc = true) :
    ∃ frames doc, node = fill frames (.heredoc doc)
      ∧ ∀ layout : Layout, '\n' ∉ formBehind layout frames (.heredoc doc) := by
  have last {nodes : List Node} (ends : lastEndsInHeredoc nodes = true) :
      ∃ front part, nodes = front ++ [part] ∧ part.endsInHeredoc = true := by
    rw [lastEndsInHeredoc_eq, Option.any_eq_true] at ends
    obtain ⟨part, found, ends⟩ := ends
    obtain ⟨front, rfl⟩ := List.getLast?_eq_some_iff.mp found
    exact ⟨front, part, rfl, ends⟩
  -- The heredoc is found down the last nodes, and nothing but closing brackets is printed behind
  -- them.
  match node with
  | .heredoc doc => exact ⟨[], doc, rfl, fun _ => List.not_mem_nil⟩
  | .unquotedExpression terms =>
    obtain ⟨front, part, rfl, endsPart⟩ := last ends
    obtain ⟨frames, doc, same, noFeed⟩ := exists_fill_of_endsInHeredoc endsPart
    subst same
    refine ⟨.unquotedExpression front [] :: frames, doc, rfl, fun layout => ?_⟩
    have nothing : joinTerms layout front.getLast? (fill frames (.heredoc doc)) (forms layout []) = [] :=
      rfl
    rw [formBehind, Frame.formBehind, nothing, List.append_nil]
    exact noFeed layout
  | .function name arguments =>
    obtain ⟨oneLine, endsLast⟩ := Bool.and_eq_true_iff.mp ends
    obtain ⟨front, part, rfl, endsPart⟩ := last endsLast
    obtain ⟨frames, doc, same, noFeed⟩ := exists_fill_of_endsInHeredoc endsPart
    subst same
    refine ⟨.function name front [] :: frames, doc, rfl, fun layout => ?_⟩
    rw [formBehind, Frame.formBehind, argumentsBehind, needsLines_eq, oneLine, List.mem_append, not_or]
    exact ⟨noFeed _, by simp⟩
termination_by sizeOf node
decreasing_by all_goals
  subst_vars
  exact sizeOf_lt_of_mem_inside (by simp [inside])

/-- The printed form of a node starts with something that may not follow a closing marker. -/
def StartsApart (node : Node) : Prop :=
  ∀ layout : Layout, StartsWith (fun c => !mayFollowMarker c) (valueForm layout node)

/-- Such a node may not follow a closing marker on its line. -/
theorem StartsApart.obstructs {node : Node} (h : StartsApart node) (layout : Layout) (more : Text) :
    Obstructs (valueForm layout node ++ more) := by
  obtain ⟨c, rest, shape, apart⟩ := h layout
  exact ⟨[], c, rest ++ more, by rw [shape]; rfl, List.not_mem_nil, by simpa using apart⟩

/-- What an item starts with is none of the characters that may follow a closing marker. -/
theorem not_mayFollowMarker_of_startsItem {c : Char} (h : startsItem c = true) :
    (!mayFollowMarker c) = true := by
  have listed : ∀ d ∈ [',', ')', ']', '}'],
      d ∈ [',', ';', ')', ']', '}', '=', ':', '\\'] := by decide
  have apart : ∀ d ∈ [',', ')', ']', '}'], c ≠ d := fun d mem => startsItem_apart h (listed d mem)
  simpa [mayFollowMarker, isWhitespace_of_startsItem h] using apart

/-- An element starts so. -/
theorem startsApart_of_isElement {node : Node} (h : IsElement node) : StartsApart node :=
  fun _ => h.starts.mono fun _ => not_mayFollowMarker_of_startsItem

/-- Terms and operator symbols start so. -/
theorem startsApart_of_areTerms {multiline : Bool} {terms : List Node}
    (h : AreTerms multiline terms) : ∀ term ∈ terms, StartsApart term := by
  refine h.forall_mem (fun node operand => startsApart_of_isElement (isElement_of_operand operand))
    (fun text listed _ => ?_) fun text accessor _ => ?_
  -- No symbol starts with a bracket or comma, and no accessor does.
  · have all : ∀ text ∈ ['!'] :: operatorSymbols,
        text.head?.any (fun c => !mayFollowMarker c) = true := by decide
    obtain ⟨c, head, apart⟩ := (Option.any_eq_true ..).mp (all text listed)
    obtain ⟨tail, rfl⟩ := List.head?_eq_some_iff.mp head
    exact ⟨c, tail, rfl, apart⟩
  · obtain ⟨source, rest, found⟩ := accessor
    obtain ⟨-, index | access, -⟩ := accessor_shape found
    · obtain ⟨tail, rfl⟩ := List.head?_eq_some_iff.mp index
      exact ⟨'[', tail, rfl, by decide⟩
    · obtain ⟨tail, rfl⟩ := List.head?_eq_some_iff.mp access
      exact ⟨'.', tail, rfl, by decide⟩

/-- The terms of an expression and the arguments of a call start apart. -/
theorem startsApart_of_shaped {node : Node} (h : Shaped node)
    (kind : node.kind = .unquotedExpression ∨ node.kind = .function) :
    ∀ part ∈ node.inside, StartsApart part := by
  have other {holds : Kind → Bool} (none : holds .unquotedExpression = false ∧ holds .function = false)
      (h : holds node.kind = true) : ∀ part ∈ node.inside, StartsApart part := by
    rcases kind with kind | kind <;> simp [kind, none] at h
  cases h with
  | expression h => exact startsApart_of_areTerms h
  | operand h =>
    cases h with
    | call _ inside | group inside => exact fun part mem => startsApart_of_isElement (inside part mem)
    | _ => simp [Node.kind] at kind
  -- No other shape is an expression or a call.
  | declaration h => exact other (by decide) h.isDeclaration
  | type h => exact other (by decide) h.isType
  | comment h => simp [h.inside]
  | member h =>
    cases h with
    | comment h => simp [h.inside]
    | typed => simp [Node.kind, PropertyKind.kind] at kind
  | root | symbol | accessor => simp [Node.kind] at kind

/-- A part that more follows stands in front of the next one. -/
theorem exists_split_of_mem_dropLast {part : Node} {parts : List Node} (h : part ∈ parts.dropLast) :
    ∃ front next back, parts = front ++ part :: next :: back := by
  have nonempty : parts ≠ [] := by
    rintro rfl
    cases h
  obtain ⟨front, middle, split⟩ := List.append_of_mem h
  have whole : parts = front ++ part :: (middle ++ [parts.getLast nonempty]) := by
    conv_lhs => rw [← List.dropLast_append_getLast nonempty, split]
    simp
  obtain ⟨next, back, shape⟩ := List.exists_cons_of_ne_nil
    (List.append_ne_nil_of_right_ne_nil middle (List.cons_ne_nil (parts.getLast nonempty) []))
  exact ⟨front, next, back, shape ▸ whole⟩

/-- Heredocs stand last in a node of a parsed tree where nothing obstructs the lines behind them. -/
theorem heredocsLast_of_places {layout : Layout} {node : Node} (shaped : Shaped node)
    (places : ∀ frames doc, node = fill frames (.heredoc doc) →
      ¬ Obstructs (formBehind layout frames (.heredoc doc))) : node.HeredocsLast := by
  -- Behind a part that ends with a heredoc, what follows the part would be on the line of the marker.
  have place (frame : Frame) {part : Node} (same : node = frame.fill part)
      (ends : part.endsInHeredoc = true) : ¬ Obstructs (frame.formBehind layout part) := by
    obtain ⟨frames, doc, rfl, noFeed⟩ := exists_fill_of_endsInHeredoc ends
    exact fun obstructs => places (frame :: frames) doc same (obstructs.behind (noFeed _))
  cases node with
  | unquotedExpression terms =>
    intro term mem ends
    obtain ⟨front, next, back, rfl⟩ := exists_split_of_mem_dropLast mem
    by_contra noHeredoc
    refine place (.unquotedExpression front (next :: back)) rfl ends ?_
    have starts := startsApart_of_shaped shaped (.inl rfl) next (by simp [inside])
    have noFeed : '\n' ∉ gap layout front.getLast? term next := by
      rw [gap_eq, Bool.not_eq_true _ |>.mp noHeredoc, Bool.false_and, if_neg Bool.false_ne_true]
      split_ifs <;> simp
    rw [Frame.formBehind, joinTerms_cons, List.append_assoc]
    exact (starts.obstructs layout _).behind noFeed
  | function name arguments =>
    intro oneLine argument mem
    obtain ⟨front, next, back, rfl⟩ := exists_split_of_mem_dropLast mem
    by_contra ends
    refine place (.function name front (next :: back)) rfl (by simpa using ends) ?_
    have starts := startsApart_of_shaped shaped (.inr rfl) next (by simp [inside])
    rw [Frame.formBehind, argumentsBehind, needsLines_eq, oneLine, if_neg (by simp), List.flatMap_cons,
      List.append_assoc]
    exact (starts.obstructs layout _).behind (show '\n' ∉ [',', ' '] by decide)
  | _ => trivial

/-- If nothing obstructs the line of any closing marker, heredocs come last everywhere. -/
theorem everywhere_heredocsLast_of_places (layout : Layout) {node : Node}
    (shaped : node.Everywhere Shaped)
    (places : ∀ frames doc, node = fill frames (.heredoc doc) →
      ¬ Obstructs (formBehind layout frames (.heredoc doc))) : node.Everywhere HeredocsLast := by
  induction shaped generalizing layout with
  | @intro node here _ ih =>
    refine .intro (heredocsLast_of_places here places) fun part mem => ?_
    obtain ⟨frame, rfl⟩ := Frame.exists_fill mem
    refine ih part mem (frame.layoutInside layout part) fun frames doc same obstructs => ?_
    subst same
    exact places (frame :: frames) doc rfl (obstructs.append _)

/-! ### What is printed around a heredoc -/

/-- Every heredoc that is printed with the node ends its line. The text before and behind it is what is
printed around any heredoc in its place, and the text behind may follow a closing marker. -/
def HeredocsEndLines (layout : Layout) (node : Node) : Prop :=
  ∀ frames doc, node = fill frames (.heredoc doc) → ∃ before after,
    (∀ other : Heredoc, (fill frames (.heredoc other)).render false layout
      = before ++ other.source (.block 0) ++ after) ∧ ClosesLine after

/-- What is printed behind the closing marker of a heredoc in a place. -/
def behindMarker (layout : Layout) (frames : List Frame) (doc : Heredoc) : Text :=
  (if layout.isCompact then ['\n'] else []) ++ formBehind layout frames (.heredoc doc)

/-- The printed form of a tree has the source of each heredoc in it, and the same in front of it
whichever heredoc stands there. -/
theorem render_fill (layout : Layout) (frames : List Frame) (doc : Heredoc) :
    ∃ before, ∀ other : Heredoc, (fill frames (.heredoc other)).render false layout
      = before ++ other.source (.block 0) ++ behindMarker layout frames doc := by
  obtain ⟨ahead, same⟩ := valueForm_fill layout frames (.heredoc doc)
  have source (other : Heredoc) : valueForm (layoutAt layout frames (.heredoc doc)) (.heredoc other)
      = other.source (.block 0) ++ (if layout.isCompact then ['\n'] else []) := by
    rw [← isCompact_layoutAt layout frames (.heredoc doc), valueForm_heredoc]
    cases layoutAt layout frames (.heredoc doc) <;> simp [Heredoc.source, Layout.isCompact]
  refine ⟨(fill frames (.heredoc doc)).margin layout ++ (fill frames (.heredoc doc)).lead ++ ahead,
    fun other => ?_⟩
  have alike := alike_fill frames (alike_heredoc doc other)
  rw [render, if_neg Bool.false_ne_true, same _ (alike_heredoc doc other), source, ← alike.margin,
    ← alike.lead, behindMarker]
  simp only [List.append_assoc]

/-- A text that shifts heredocs of every length is empty. -/
theorem shift_eq_nil {shift after after' : Text}
    (same : ∀ other : Heredoc, other.source (.block 0) ++ after
      = shift ++ (other.source (.block 0) ++ after')) : shift = [] := by
  by_contra nonempty
  -- The first line of the shifted heredoc would have to end where the body of the other one does.
  have here := same ⟨[], false, List.replicate shift.length 'x'⟩
  have source : Heredoc.source (.block 0) ⟨[], false, List.replicate shift.length 'x'⟩
      = "<<\n".toList ++ List.replicate shift.length 'x' := by
    simp [Heredoc.source]
  rw [source, List.append_assoc _ _ after', ← List.append_assoc shift] at here
  have front := (List.append_inj here (by simp)).1
  have last := congrArg List.getLast? front
  rw [List.getLast?_append, List.getLast?_append, List.getLast?_replicate,
    if_neg (by simpa using nonempty)] at last
  simp at last

/-- Only one text is printed behind all heredocs in a place. -/
theorem after_unique {before before' after after' : Text}
    (same : ∀ other : Heredoc, before ++ other.source (.block 0) ++ after
      = before' ++ other.source (.block 0) ++ after') : after = after' := by
  simp only [List.append_assoc] at same
  rcases List.append_eq_append_iff.mp (same ⟨[], false, []⟩) with ⟨shift, rfl, -⟩ | ⟨shift, rfl, -⟩
  · have shifted (other : Heredoc) := List.append_cancel_left ((same other).trans (List.append_assoc ..))
    obtain rfl := shift_eq_nil shifted
    exact List.append_cancel_left (shifted ⟨[], false, []⟩)
  · have shifted (other : Heredoc) :=
      List.append_cancel_left ((same other).symm.trans (List.append_assoc ..))
    obtain rfl := shift_eq_nil shifted
    exact (List.append_cancel_left (shifted ⟨[], false, []⟩)).symm

/-- In the compact form of a parsed tree every heredoc ends its line, and in the block form exactly if
they all stand last. -/
theorem heredocsEndLines_iff {node : Node} (shaped : node.Everywhere Shaped) (layout : Layout) :
    node.HeredocsEndLines layout
      ↔ (layout.isCompact = false → node.Everywhere HeredocsLast) := by
  constructor
  · intro endLines block
    refine everywhere_heredocsLast_of_places layout shaped fun frames doc place obstructs => ?_
    obtain ⟨before, after, printed, closes⟩ := endLines frames doc place
    obtain ⟨ahead, same⟩ := render_fill layout frames doc
    -- What stands behind a marker is the same for all heredocs in its place.
    obtain rfl := after_unique fun other => (printed other).symm.trans (same other)
    rw [behindMarker, block] at closes
    exact obstructs.not_closesLine closes
  · intro last frames doc place
    obtain ⟨before, printed⟩ := render_fill layout frames doc
    refine ⟨before, _, printed, ?_⟩
    rw [behindMarker]
    cases compact : layout.isCompact with
    | true => exact closesLine_feed _
    | false =>
      subst place
      rcases formBehind_cases compact (shaped.mono fun _ => Shaped.fits) (last compact) with
        ends | ⟨closers, -⟩
      · exact ends.closesLine
      · exact closesLine_of_forall closers

end Node

open Node

/-! ### Parsed trees -/

/-- In what is printed for a template that was read every heredoc ends its line, in the compact layout
always, and in the block layout exactly if no term or argument that more follows ends with a heredoc
further inside. -/
theorem parse_heredocsEndLines_iff {text : Text} {document : Document}
    (h : parse text = .ok document) (layout : Layout) :
    document.root.HeredocsEndLines layout
      ↔ (layout.isCompact = false → document.root.Everywhere HeredocsLast) :=
  heredocsEndLines_iff (parse_shaped h) layout

/-- The parenthesis behind an argument that ends with a heredoc may follow the marker. -/
theorem parse_heredocsEndLines_argument :
    ∃ document, parse "a = f(1 + <<EOF\nx\nEOF\n)".toList = .ok document
      ∧ document.render (.block 0) = "a = f(1 + <<EOF\nx\nEOF)".toList
      ∧ document.root.HeredocsEndLines (.block 0) ∧ document.root.HeredocsEndLines .compact := by
  have found : parse "a = f(1 + <<EOF\nx\nEOF\n)".toList = .ok ⟨[.property .unquotedExpression
      (.bare "a".toList) (.function (some "f".toList) [.unquotedExpression [.numberOrBool "1".toList,
        .mathSymbol "+".toList, .heredoc ⟨"EOF".toList, false, "x\n".toList⟩]])]⟩ := by
    cbv
  have leaf {node : Node} (noParts : node.inside = []) (last : node.HeredocsLast) :
      node.Everywhere HeredocsLast := .intro last (by simp [noParts])
  have sum : ∀ term ∈ [Node.numberOrBool "1".toList, .mathSymbol "+".toList],
      term.endsInHeredoc = true → term.isHeredoc = true := by
    simp [endsInHeredoc]
  refine ⟨_, found, by decide, (parse_heredocsEndLines_iff found (.block 0)).mpr fun _ => ?_,
    (parse_heredocsEndLines_iff found .compact).mpr fun block => absurd block (by decide)⟩
  refine .intro trivial <| List.forall_mem_singleton.mpr <| .intro trivial <|
    List.forall_mem_singleton.mpr <| .intro (by simp [HeredocsLast]) <|
    List.forall_mem_singleton.mpr <| .intro sum ?_
  exact List.forall_mem_cons.mpr ⟨leaf rfl trivial, List.forall_mem_cons.mpr ⟨leaf rfl trivial,
    List.forall_mem_singleton.mpr (leaf rfl trivial)⟩⟩

/-- The group ends with a heredoc, and the operator behind the group stands on the line of the marker. -/
theorem not_heredocsEndLines_group :
    ∃ document, parse "a = (1 + <<EOF\nx\nEOF\n) + 2".toList = .ok document
      ∧ document.render (.block 0) = "a = (1 + <<EOF\nx\nEOF) + 2".toList
      ∧ ¬ document.root.HeredocsEndLines (.block 0) := by
  have found : parse "a = (1 + <<EOF\nx\nEOF\n) + 2".toList = .ok ⟨[.property .unquotedExpression
      (.bare "a".toList) (.unquotedExpression [.function none [.unquotedExpression
        [.numberOrBool "1".toList, .mathSymbol "+".toList,
          .heredoc ⟨"EOF".toList, false, "x\n".toList⟩]],
        .mathSymbol "+".toList, .numberOrBool "2".toList])]⟩ := by
    cbv
  refine ⟨_, found, by decide, fun endLines => ?_⟩
  have last := (heredocsEndLines_iff (parse_shaped found) (.block 0)).mp endLines rfl
  have property := last.of_mem_inside (List.mem_singleton_self _)
  have value := (property.of_mem_inside (List.mem_singleton_self _)).here
  exact absurd (value _ List.mem_cons_self (by decide)) (by decide)

end HclSyntax
