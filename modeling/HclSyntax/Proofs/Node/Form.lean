import HclSyntax.Grammar.Declaration
import HclSyntax.Proofs.Node.Parts
import HclSyntax.Proofs.Rule.Series

/-!
# `HclSyntax.Proofs.Node.Form`: the printed forms taken apart

`Node.valueForm` prints sequences by joining texts, and terms by looking at their neighbours. This
module says what the results are made of: sequences are the texts of a `Series`, and the terms of an
expression are its first operand, an operator and the form of the terms after it
(`termsForm_operator`). What goes in front of a term is also told by its position alone
(`termsForm_eq_flatMap`).
-/

set_option autoImplicit false

namespace HclSyntax.Node

variable {layout : Layout}

/-! ### One equation for each kind of node

The printer is one of two mutually recursive functions, and each of the equations holds by
computation. -/

section Equations

/-- The form of a node does not depend on those beside it. -/
theorem forms_cons (node : Node) (rest : List Node) :
    forms layout (node :: rest) = (node, valueForm layout node) :: forms layout rest := rfl

/-- The header of a block is no part of its value, so the value is the body. -/
theorem valueForm_block (header : BlockHeader) (declarations : List Node) :
    valueForm layout (.block header declarations)
      = bodyForm layout (forms layout.nested declarations) := rfl

/-- A string is printed in quotes, with its escapes. -/
theorem valueForm_string (content : Text) :
    valueForm layout (.string content) = content.quote := rfl

/-- Unquoted text is printed as it was written. -/
theorem valueForm_unquotedString (text : Text) :
    valueForm layout (.unquotedString text) = text := rfl

/-- Numbers and booleans are printed in the spelling they were written in. -/
theorem valueForm_numberOrBool (text : Text) : valueForm layout (.numberOrBool text) = text := rfl

/-- A symbol is printed as it was written. -/
theorem valueForm_mathSymbol (text : Text) : valueForm layout (.mathSymbol text) = text := rfl

/-- The elements of a list are printed one level deeper. -/
theorem valueForm_list (elements : List Node) :
    valueForm layout (.list elements) = listForm layout (forms layout.nested elements) := rfl

/-- A map is printed like the body of a block. -/
theorem valueForm_map (entries : List Node) :
    valueForm layout (.map entries) = bodyForm layout (forms layout.nested entries) := rfl

/-- A for expression is printed from its parts, in the same way in every layout. -/
theorem valueForm_forLoop (loop : ForLoop) : valueForm layout (.forLoop loop) = loop.source := rfl

/-- The layout of the arguments of a call depends on whether they fit on its line. -/
theorem valueForm_function (name : Option Text) (arguments : List Node) :
    valueForm layout (.function name arguments)
      = name.getD [] ++ argumentsForm layout (forms (argumentLayout layout arguments) arguments) :=
  rfl

/-- A heredoc is printed as its lines, and in compact form with its line break at the end. -/
theorem valueForm_heredoc (doc : Heredoc) :
    valueForm layout (.heredoc doc) = doc.source layout := rfl

/-- A primitive type is printed in quotes if it was written in quotes. -/
theorem valueForm_primitiveType (name : Text) (quoted : Bool) :
    valueForm layout (.primitiveType name quoted) = if quoted then name.quote else name := rfl

/-- The members of an object type are printed like the body of a block. -/
theorem valueForm_objectType (members : List Node) :
    valueForm layout (.objectType members)
      = "object(".toList ++ bodyForm layout (forms layout.nested members) ++ [')'] := rfl

/-- The type inside a collection type stands in parentheses behind its word. -/
theorem valueForm_collectionType (collection : CollectionType) (element : Node) :
    valueForm layout (.collectionType collection element)
      = collection.word ++ '(' :: valueForm layout element ++ [')'] := rfl

/-- The elements of a tuple type stand one behind the other in every layout. -/
theorem valueForm_tupleType (elements : List Node) :
    valueForm layout (.tupleType elements)
      = "tuple([".toList ++ Text.join [',', ' '] ((forms layout elements).map Prod.snd)
        ++ [']', ')'] := rfl

/-- The name of a property is no part of its value. -/
theorem valueForm_property (kind : PropertyKind) (name : Name) (value : Node) :
    valueForm layout (.property kind name value) = valueForm layout value := rfl

end Equations

/-! ### Sequences -/

section Sequences

variable {α : Type} {series : Series α}

/-- Pieces joined by a comma and white space are a series. -/
theorem join_map_eq_text {items : List α} {piece : α → Text} {separator : Text}
    (pieces : ∀ item ∈ items, piece item = series.margin ++ series.form item)
    (separators : ∀ item ∈ items, series.separator item ++ series.glue = separator) :
    Text.join separator (items.map piece) = series.text items := by
  induction items with
  | nil => rfl
  | cons item rest ih =>
    cases rest with
    | nil => exact pieces item (by simp)
    | cons next rest =>
      have others := ih (fun other mem => pieces other (List.mem_cons_of_mem _ mem))
        fun other mem => separators other (List.mem_cons_of_mem _ mem)
      rw [List.map_cons] at others
      rw [List.map_cons, List.map_cons, Text.join, others, Series.text, pieces item (by simp),
        ← separators item (by simp)]
      simp only [List.append_assoc]

end Sequences

/-- Elements on lines of their own, and in compact lists, are a series. -/
theorem join_withCommas {series : Series Node} {elements : List Node}
    (margins : ∀ element ∈ elements, element.margin layout = series.margin)
    (form : series.form = valueForm layout)
    (separator : series.separator = fun element => if element.isComment then [] else [',']) :
    Text.join series.glue (withCommas layout (forms layout elements)) = series.text elements := by
  induction elements with
  | nil => rfl
  | cons element rest ih =>
    cases rest with
    | nil =>
      rw [Series.text, ← margins element (by simp), form]
      rfl
    | cons next rest =>
      have others := ih fun other mem => margins other (List.mem_cons_of_mem _ mem)
      -- `Text.join` puts the glue in front of a second piece only, so there has to be one to see.
      obtain ⟨piece, pieces, shape⟩ : ∃ piece pieces,
          withCommas layout (forms layout (next :: rest)) = piece :: pieces := by
        cases rest <;> exact ⟨_, _, rfl⟩
      rw [shape] at others
      have first : withCommas layout (forms layout (element :: next :: rest))
          = (element.margin layout ++ valueForm layout element
              ++ if element.isComment then [] else [','])
            :: withCommas layout (forms layout (next :: rest)) := rfl
      rw [first, shape, Text.join, others, Series.text, margins element (by simp), form, separator]

/-- What stands between two elements of a list, and between two declarations behind the comma. -/
def elementGap (layout : Layout) : Text :=
  if layout.isCompact then [' '] else ['\n']

/-- The comma between two declarations. -/
def declarationComma (layout : Layout) : Text :=
  if layout.isCompact then [','] else []

/-- Declarations with what stands between them are a series. -/
theorem sequenceForm_eq_text {series : Series Node} {declarations : List Node}
    (margins : ∀ node ∈ declarations, node.margin layout = series.margin)
    (form : series.form = fun node => node.lead ++ valueForm layout node)
    (separator : series.separator = fun _ => declarationComma layout)
    (glue : series.glue = elementGap layout) :
    sequenceForm layout (forms layout declarations) = series.text declarations := by
  rw [sequenceForm, forms_eq_map, List.map_map]
  refine join_map_eq_text (fun node mem => ?_) fun _ _ => ?_
  · rw [← margins node mem, form]
    exact List.append_assoc ..
  · rw [separator, glue]
    cases layout <;> rfl

/-! ### Brackets

What is inside a bracket stands on lines of its own in the block layout. -/

/-- What stands behind an opening bracket. -/
def openingBreak (layout : Layout) : Text :=
  if layout.isCompact then [] else ['\n']

/-- What stands in front of a closing bracket. -/
def closingBreak (layout : Layout) : Text :=
  if layout.isCompact then [] else '\n' :: layout.margin

/-- The margin of a line is white space, so it is skipped when the line is read. -/
theorem allSpace_margin (layout : Layout) : Text.AllSpace layout.margin := by
  cases layout with
  | compact => exact Text.allSpace_nil
  | block level =>
    intro c hc
    obtain ⟨-, rfl⟩ := List.mem_replicate.mp hc
    decide

/-- A list with elements, in one shape for both layouts: only the breaks and gaps differ. -/
theorem listForm_eq {elements : List (Node × Text)} (nonempty : elements ≠ []) :
    listForm layout elements
      = '[' :: (openingBreak layout
        ++ (Text.join (elementGap layout) (withCommas layout.nested elements)
          ++ (closingBreak layout ++ [']']))) := by
  unfold listForm
  rw [if_neg (by simpa using nonempty)]
  cases layout <;> simp [elementGap, openingBreak, closingBreak, Layout.isCompact, Layout.nested]

/-- A body with declarations, in one shape for both layouts. -/
theorem bodyForm_eq {declarations : List (Node × Text)} (nonempty : declarations ≠ []) :
    bodyForm layout declarations
      = '{' :: (openingBreak layout
        ++ (sequenceForm layout.nested declarations ++ (closingBreak layout ++ ['}']))) := by
  unfold bodyForm
  rw [if_neg (by simpa using nonempty)]
  cases layout <;> simp [openingBreak, closingBreak, Layout.isCompact, Layout.nested]

/-- Arguments are put on lines of their own in block layout only, and only if they do not fit on
one. -/
theorem needsLines_eq (arguments : List Node) :
    needsLines layout arguments = (!layout.isCompact && !onOneLine arguments) := by
  rw [onOneLine, Bool.not_not]
  cases layout <;> rfl

/-- A form keeps its node. -/
theorem forms_map_fst (nodes : List Node) : (forms layout nodes).map Prod.fst = nodes := by
  rw [forms_eq_map, List.map_map]
  exact List.map_id nodes

/-- A form is the value of its node as it is printed. -/
theorem forms_map_snd (nodes : List Node) :
    (forms layout nodes).map Prod.snd = nodes.map (valueForm layout) := by
  rw [forms_eq_map, List.map_map]
  rfl

/-- The arguments of a call on lines of their own. -/
theorem argumentsForm_lines {arguments : List Node} (needed : needsLines layout arguments = true) :
    argumentsForm layout (forms (argumentLayout layout arguments) arguments)
      = '(' :: '\n' :: (Text.join ['\n'] (withCommas layout.nested (forms layout.nested arguments))
        ++ (closingBreak layout ++ [')'])) := by
  have block : layout.isCompact = false := by
    rw [needsLines_eq, Bool.and_eq_true, Bool.not_eq_true'] at needed
    exact needed.1
  rw [argumentsForm, forms_map_fst, if_pos needed, argumentLayout, if_pos needed, closingBreak,
    block]
  simp

/-- The arguments of a call on its own line. -/
theorem argumentsForm_oneLine {arguments : List Node} (fits : needsLines layout arguments = false) :
    argumentsForm layout (forms (argumentLayout layout arguments) arguments)
      = '(' :: Text.join [',', ' '] (arguments.map (valueForm layout)) ++ [')'] := by
  rw [argumentsForm, forms_map_fst, if_neg (by simp [fits]), argumentLayout,
    if_neg (by simp [fits]), forms_map_snd]

/-! ### Terms -/

/-- The printed terms of an expression. -/
def termsForm (layout : Layout) (terms : List Node) : Text :=
  expressionForm layout (forms layout terms)

/-- A symbol is never taken for an accessor. -/
theorem isAccessor_mathSymbol (symbol : Text) : (mathSymbol symbol).isAccessor = false := rfl

/-- The gap in front of a term: a line break behind a heredoc, nothing behind a sign and in front of
an accessor, and a space everywhere else. -/
theorem gap_eq (before : Option Node) (previous term : Node) :
    gap layout before previous term
      = if previous.isHeredoc && !layout.isCompact then ['\n']
        else if (previous.isSymbol && before.all isSymbol) || term.isAccessor then []
        else [' '] := by
  cases layout <;> rfl

/-- Behind a sign and in front of an accessor there is no gap. -/
theorem gap_nil {before : Option Node} {previous term : Node} (noHeredoc : previous.isHeredoc = false)
    (close : (previous.isSymbol && before.all isSymbol || term.isAccessor) = true) :
    gap layout before previous term = [] := by
  rw [gap_eq, noHeredoc, close]
  rfl

/-- Between two terms of which neither is a sign or an accessor there is a space. -/
theorem gap_space {before : Option Node} {previous term : Node}
    (noHeredoc : previous.isHeredoc = false)
    (apart : (previous.isSymbol && before.all isSymbol || term.isAccessor) = false) :
    gap layout before previous term = [' '] := by
  rw [gap_eq, noHeredoc, apart]
  rfl

/-- A single term is printed as it is. -/
@[simp]
theorem termsForm_singleton (node : Node) : termsForm layout [node] = valueForm layout node :=
  List.append_nil _

/-- The form of an expression starts with that of its first term. -/
theorem termsForm_cons (term : Node) (rest : List Node) :
    termsForm layout (term :: rest)
      = valueForm layout term ++ joinTerms layout none term (forms layout rest) := rfl

/-- The terms behind the first are printed one by one, each behind its gap. -/
theorem joinTerms_cons (before : Option Node) (previous term : Node) (rest : List Node) :
    joinTerms layout before previous (forms layout (term :: rest))
      = gap layout before previous term
        ++ valueForm layout term ++ joinTerms layout (some previous) term (forms layout rest) := rfl

/-- Whether a term stands first or behind a symbol does not change what follows it. -/
theorem joinTerms_behind_symbol (symbol : Text) (term : Node) (rest : List Node) :
    joinTerms layout (some (.mathSymbol symbol)) term (forms layout rest)
      = joinTerms layout none term (forms layout rest) := by
  cases rest with
  | nil => rfl
  | cons next rest =>
    have same : gap layout (some (.mathSymbol symbol)) term next = gap layout none term next := rfl
    rw [joinTerms_cons, joinTerms_cons, same]

/-- An accessor stands right behind its operand. -/
theorem termsForm_accessor {node : Node} {text : Text} (noHeredoc : node.isHeredoc = false)
    (accessor : (Node.unquotedString text).isAccessor = true) :
    termsForm layout [node, .unquotedString text] = valueForm layout node ++ text := by
  have noGap : gap layout none node (.unquotedString text) = [] :=
    gap_nil noHeredoc (by rw [accessor, Bool.or_true])
  rw [termsForm_cons, joinTerms_cons, noGap, valueForm_unquotedString]
  exact congrArg _ (List.append_nil _)

/-- A sign stands right in front of its operand. -/
theorem termsForm_sign {sign : Text} {terms : List Node} (nonempty : terms ≠ []) :
    termsForm layout (.mathSymbol sign :: terms) = sign ++ termsForm layout terms := by
  obtain ⟨term, rest, rfl⟩ := List.exists_cons_of_ne_nil nonempty
  have noGap : gap layout none (.mathSymbol sign) term = [] := gap_nil rfl rfl
  rw [termsForm_cons, joinTerms_cons, noGap, joinTerms_behind_symbol, termsForm_cons,
    valueForm_mathSymbol, List.nil_append]

/-- What stands between some terms and an operator behind them. -/
def lineBreak (layout : Layout) (terms : List Node) : Text :=
  if terms.getLast?.any isHeredoc && !layout.isCompact then ['\n'] else [' ']

/-- In front of an operator there is always a gap, because no symbol is in front of it. -/
theorem gap_operator (before : Option Node) {previous : Node} (notSymbol : previous.isSymbol = false)
    (symbol : Text) :
    gap layout before previous (.mathSymbol symbol)
      = if previous.isHeredoc && !layout.isCompact then ['\n'] else [' '] := by
  rw [gap_eq, notSymbol]
  rfl

/-- Terms go on with an operator behind the last of them. -/
theorem joinTerms_operator {before : Option Node} {previous : Node} {front : List Node}
    (notSymbol : ∀ last ∈ (previous :: front).getLast?, last.isSymbol = false) (symbol : Text)
    {term : Node} (notAccessor : term.isAccessor = false) (rest : List Node) :
    joinTerms layout before previous (forms layout (front ++ .mathSymbol symbol :: term :: rest))
      = joinTerms layout before previous (forms layout front)
        ++ (lineBreak layout (previous :: front)
          ++ (symbol ++ ' ' :: termsForm layout (term :: rest))) := by
  induction front generalizing before previous with
  | nil =>
    have notSymbol := notSymbol previous (by simp)
    -- What stands behind the operator depends on the term in front of it: behind a sign there is no
    -- gap, and no symbol is in front of this one.
    have space : gap layout (some previous) (.mathSymbol symbol) term = [' '] := by
      refine gap_space rfl ?_
      rw [notAccessor, Option.all_some, notSymbol]
      rfl
    rw [List.nil_append, joinTerms_cons, gap_operator before notSymbol, joinTerms_cons, space,
      joinTerms_behind_symbol, valueForm_mathSymbol, termsForm_cons]
    simp only [List.append_assoc]
    rfl
  | cons next front ih =>
    have others := @ih (some previous) next (by simpa using notSymbol)
    have same : lineBreak layout (previous :: next :: front) = lineBreak layout (next :: front) := by
      rw [lineBreak, lineBreak, List.getLast?_cons_cons]
    rw [List.cons_append, joinTerms_cons, others, same, joinTerms_cons]
    simp only [List.append_assoc]

/-- An operator stands between the terms before it and the terms after it. -/
theorem termsForm_operator {front back : List Node} (hfront : front ≠ []) (hback : back ≠ [])
    (notSymbol : ∀ last ∈ front.getLast?, last.isSymbol = false)
    (notAccessor : ∀ first ∈ back.head?, first.isAccessor = false) (symbol : Text) :
    termsForm layout (front ++ .mathSymbol symbol :: back)
      = termsForm layout front
        ++ (lineBreak layout front ++ (symbol ++ ' ' :: termsForm layout back)) := by
  obtain ⟨first, front, rfl⟩ := List.exists_cons_of_ne_nil hfront
  obtain ⟨term, rest, rfl⟩ := List.exists_cons_of_ne_nil hback
  rw [List.cons_append, termsForm_cons, joinTerms_operator notSymbol symbol (notAccessor term rfl)]
  simp only [termsForm_cons, List.append_assoc]

/-! ### Positions -/

/-- Whether the printer takes the term in front of a position for a sign: a symbol that stands first
or behind another symbol. -/
def signBefore (terms : List Node) (i : Nat) : Bool :=
  terms[i - 1]?.any isSymbol && (i == 1 || terms[i - 2]?.any isSymbol)

/-- What the printer puts in front of the term at a position. -/
def gapAt (layout : Layout) (terms : List Node) (i : Nat) : Text :=
  if i = 0 then []
  else if terms[i - 1]?.any isHeredoc && !layout.isCompact then ['\n']
  else if signBefore terms i || terms[i]?.any isAccessor then []
  else [' ']

/-- The gap between two neighbours, by the position of the second. -/
theorem gapAt_append (front : List Node) (previous term : Node) (rest : List Node) :
    gapAt layout (front ++ previous :: term :: rest) (front.length + 1)
      = gap layout front.getLast? previous term := by
  have here : (front ++ previous :: term :: rest)[front.length]? = some previous := by simp
  have next : (front ++ previous :: term :: rest)[front.length + 1]? = some term := by simp
  have afterSign : signBefore (front ++ previous :: term :: rest) (front.length + 1)
      = (previous.isSymbol && front.getLast?.all isSymbol) := by
    rw [signBefore, Nat.add_sub_cancel, here]
    -- Two positions back stands the last term in front, if there is any.
    cases front using List.reverseRecOn with
    | nil => simp
    | append_singleton front before => simp
  rw [gapAt, if_neg (Nat.succ_ne_zero _), Nat.add_sub_cancel, here, next, afterSign, gap_eq]
  rfl

/-- The terms of an expression are printed one after the other, and what goes in front of each depends
on its position. -/
theorem termsForm_eq_flatMap (terms : List Node) :
    termsForm layout terms
      = terms.zipIdx.flatMap fun (term, i) => gapAt layout terms i ++ valueForm layout term := by
  have behind (front : List Node) (previous : Node) (rest : List Node) :
      joinTerms layout front.getLast? previous (forms layout rest)
        = (rest.zipIdx (front.length + 1)).flatMap fun (term, i) =>
          gapAt layout (front ++ previous :: rest) i ++ valueForm layout term := by
    induction rest generalizing front previous with
    | nil => rfl
    | cons term rest ih =>
      have others := ih (front ++ [previous]) term
      rw [List.getLast?_concat, List.length_append, List.append_assoc] at others
      rw [joinTerms_cons, List.zipIdx_cons, List.flatMap_cons, ← gapAt_append front previous term rest,
        others]
      rfl
  cases terms with
  | nil => rfl
  | cons first rest =>
    have others := behind [] first rest
    rw [termsForm_cons, List.zipIdx_cons, List.flatMap_cons]
    exact congrArg _ others

end HclSyntax.Node
