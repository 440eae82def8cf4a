import HclSyntax.Proofs.RoundTrip.Elements

/-!
# `HclSyntax.Proofs.RoundTrip.Sequence`: sequences of declarations are read back

Documents, the bodies of blocks and maps, and object types all hold sequences that are printed by
`Node.sequenceForm`. They are read by different rules, with other commas: `SequenceReads` is what such
a rule has to do, and then it reads the whole sequence back, in front of any text that ends a
declaration (`SequenceReads.rule_text`) and inside braces (`SequenceReads.body`).
-/

set_option autoImplicit false

namespace HclSyntax.Grammar

open Rule Node

variable {layout : Layout}

/-! ### Behind a declaration -/

/-- A declaration may stand at the end of the text. -/
theorem declarationEnd_nil : DeclarationEnd layout [] :=
  ⟨Text.stops_nil _, by simp [Text.trimStart], fun _ => Text.stops_nil _⟩

/-- It may stand at the end of its line, if no brace comes next. -/
theorem declarationEnd_feed {rest : Text} (noBody : rest.trimStart.head? ≠ some '{') :
    DeclarationEnd layout ('\n' :: rest) := by
  refine ⟨(Text.stops_cons ..).mpr (by decide), ?_, fun _ => (Text.stops_cons ..).mpr (by decide)⟩
  have feed : Text.trimStart ('\n' :: rest) = rest.trimStart :=
    List.dropWhile_cons_of_pos (by decide)
  rwa [feed]

/-- In the compact layout a comma or brace ends a declaration. -/
theorem declarationEnd_cons (compact : layout.isCompact = true) {c : Char} (listed : c ∈ [',', '}'])
    (rest : Text) : DeclarationEnd layout (c :: rest) := by
  have apart : ∀ c ∈ [',', '}'],
      declarationEnds.contains c = true ∧ isWhitespace c = false ∧ c ≠ '{' := by decide
  obtain ⟨ends, notSpace, notBrace⟩ := apart c listed
  refine ⟨(Text.stops_cons ..).mpr (by rw [ends]; rfl), ?_, fun block => by simp [compact] at block⟩
  rw [Text.trimStart_cons notSpace]
  simpa using notBrace

/-- A run of other characters ends in front of what follows a declaration. -/
theorem DeclarationEnd.stops {rest : Text} (h : DeclarationEnd layout rest) {accepts : Char → Bool}
    (apart : ∀ c ∈ declarationEnds, accepts c = false) : Text.Stops accepts rest := by
  intro c hc
  have listed : (!declarationEnds.contains c) = false := h.ends c hc
  exact apart c (by simpa using listed)

/-- In the block layout a declaration ends its line. -/
theorem DeclarationEnd.lineEnd {rest : Text} (h : DeclarationEnd layout rest) (node : Node) :
    LineEnd layout node rest := by
  refine ⟨fun block _ => ?_, fun block _ => h.line block⟩
  cases rest with
  | nil => rfl
  | cons c rest =>
    have feed : (c != '\n') = false := h.line block c rfl
    obtain rfl : c = '\n' := by simpa using feed
    exact closesLine_feed rest

/-! ### Sequences -/

/-- The printed node is read by the rule as the declaration it is. -/
def ItemReads (item : Rule Node) (layout : Layout) (node : Node) : Prop :=
  ∀ rest, DeclarationEnd layout rest →
    item ((node.lead ++ valueForm layout node) ++ rest)
      = .matched node (declarationOverhang layout node ++ rest)

/-- A property is read back where its name, the equals sign and the form of its value are. -/
theorem property_form {item : Rule Node} {kind : PropertyKind} {name : Name} {value : Node}
    {rest : Text} :
    item (((Node.property kind name value).lead ++ valueForm layout (.property kind name value))
          ++ rest)
        = .matched (.property kind name value)
          (declarationOverhang layout (.property kind name value) ++ rest)
      ↔ item (name.source ++ (' ' :: '=' :: ' ' :: (valueForm layout value ++ rest)))
        = .matched (.property kind name value) (overhang layout value.terms ++ rest) := by
  have same : ((Node.property kind name value).lead ++ valueForm layout (.property kind name value))
        ++ rest = name.source ++ (' ' :: '=' :: ' ' :: (valueForm layout value ++ rest)) := by
    simp [lead, valueForm_property]
  rw [same]
  rfl

/-- Declarations in some layout, with what is printed around them. -/
def sequenceSeries (layout : Layout) (item : Rule Node) (gap : Rule Unit) (comma : Rule Char) :
    Series Node where
  item := item
  gap := gap
  comma := comma
  margin := layout.margin
  glue := elementGap layout
  form node := node.lead ++ valueForm layout node
  separator _ := declarationComma layout
  overhang := declarationOverhang layout

/-- What rules have to do to read some declarations back. -/
structure SequenceReads (layout : Layout) (item : Rule Node) (gap : Rule Unit) (comma : Rule Char)
    (declarations : List Node) : Prop where
  itemDescends : Descends item
  gapDescends : Descends gap
  commaDescends : Descends comma
  shape : ∀ node ∈ declarations, IsDeclaration node
  reads : ∀ node ∈ declarations, ItemReads item layout node
  commaReads : ∀ node ∈ declarations, ∀ rest,
    (gap >>= fun _ => comma) (declarationOverhang layout node ++ ',' :: rest) = .matched ',' rest
  noComma : ∀ text : Text, (∀ c ∈ text.trimStart.head?, c ∉ [',', ';']) →
    (gap >>= fun _ => comma).Mismatches text
  ends : ∀ text, Text.Stops startsDeclaration text → item.Mismatches text

/-- What a declaration leaves behind it is white space. -/
theorem allSpace_declarationOverhang (node : Node) :
    Text.AllSpace (declarationOverhang layout node) := by
  cases node with
  | property => exact allSpace_overhang _
  | _ => exact Text.allSpace_nil

/-- In the block layout a declaration leaves nothing. -/
theorem declarationOverhang_block (block : layout.isCompact = false) (node : Node) :
    declarationOverhang layout node = [] := by
  cases node with
  | property => simp [declarationOverhang, overhang, block]
  | _ => rfl

section Sequence

variable {item : Rule Node} {gap : Rule Unit} {comma : Rule Char} {declarations : List Node}

/-- What ends a sequence: neither a declaration nor a comma comes next. -/
structure SequenceEnd (layout : Layout) (rest : Text) : Prop extends DeclarationEnd layout rest where
  noDeclaration : Text.Stops startsDeclaration rest.trimStart
  noComma : ∀ c ∈ rest.trimStart.head?, c ∉ [',', ';']

/-- A declaration on a line of its own has the margin of the line. -/
theorem IsDeclaration.margin {node : Node} (h : IsDeclaration node) :
    node.margin layout = layout.margin := by
  cases h with
  | comment comment => exact comment.bare.2.2
  | property _ terms =>
    obtain ⟨kind, value, shape, -⟩ := terms.propertyOfTerms_eq _
    rw [shape]
    rfl
  | _ => rfl

/-- The start of a declaration behind its margin. -/
theorem IsDeclaration.trimStart {node : Node} (h : IsDeclaration node) (rest : Text) :
    ∃ c, startsDeclaration c = true
      ∧ (Text.trimStart (layout.margin ++ ((node.lead ++ valueForm layout node) ++ rest))).head?
        = some c := by
  obtain ⟨c, tail, shape, starts⟩ :=
    (h.starts : StartsWith _ (node.lead ++ valueForm layout node)).append rest
  refine ⟨c, starts, ?_⟩
  rw [Text.trimStart_append (allSpace_margin layout), shape,
    Text.trimStart_cons (isWhitespace_of_startsItem (startsItem_of_startsDeclaration starts))]
  rfl

/-- What stands between two declarations ends the first of them. -/
theorem IsDeclaration.declarationEnd {next : Node} (h : IsDeclaration next) (rest : Text) :
    DeclarationEnd layout (declarationComma layout ++ (elementGap layout
      ++ (layout.margin ++ ((next.lead ++ valueForm layout next) ++ rest)))) := by
  cases compact : layout.isCompact with
  | true =>
    rw [declarationComma, if_pos compact]
    exact declarationEnd_cons compact (by decide) _
  | false =>
    rw [declarationComma, elementGap, if_neg (by simp [compact]), if_neg (by simp [compact])]
    -- A line break stands behind it, and the next declaration does not start with a brace, which
    -- the rule for a block would take for the body of this one.
    obtain ⟨c, starts, head⟩ := @IsDeclaration.trimStart layout next h rest
    refine declarationEnd_feed ?_
    change (Text.trimStart
      (layout.margin ++ ((next.lead ++ valueForm layout next) ++ rest))).head? ≠ _
    rw [head]
    rintro same
    obtain rfl := Option.some.inj same
    exact absurd starts (by decide)

/-- Between two declarations a comma is read where one is printed, and only white space is left. -/
theorem SequenceReads.separates (read : SequenceReads layout item gap comma declarations) {node : Node}
    (mem : node ∈ declarations) {next : Node} (h : IsDeclaration next) (rest : Text) :
    ∃ found, optional (gap >>= fun _ => comma) (declarationOverhang layout node
        ++ (declarationComma layout ++ (elementGap layout
          ++ (layout.margin ++ ((next.lead ++ valueForm layout next) ++ rest)))))
      = .matched found
        (elementGap layout ++ (layout.margin ++ ((next.lead ++ valueForm layout next) ++ rest))) := by
  -- Only the compact layout prints a comma; in the other one the next declaration is not mistaken
  -- for one.
  refine ⟨if layout.isCompact then some ',' else none, ?_⟩
  cases compact : layout.isCompact with
  | true =>
    rw [declarationComma, if_pos compact, if_pos rfl]
    exact optional_of_matched (read.commaReads node mem _)
  | false =>
    rw [declarationComma, if_neg (by simp [compact]), if_neg Bool.false_ne_true,
      declarationOverhang_block compact]
    refine optional_of_mismatches (read.noComma _ ?_)
    obtain ⟨c, starts, head⟩ := @IsDeclaration.trimStart layout next h rest
    rw [List.nil_append, List.nil_append, Text.trimStart_append allSpace_elementGap, head]
    intro d hd
    obtain rfl := Option.some.inj hd
    intro listed
    have apart : ∀ c ∈ [',', ';'], startsDeclaration c = false := by decide
    simp [apart c listed] at starts

/-- A declaration is read with its comma, if there is one, up to the white space in front of the next. -/
theorem SequenceReads.step (read : SequenceReads layout item gap comma declarations) {node : Node}
    (mem : node ∈ declarations) {next : Node} (h : IsDeclaration next) (rest : Text) {front : Text}
    (hfront : Text.AllSpace front) :
    (sequenceSeries layout item gap comma).step (front ++ ((node.lead ++ valueForm layout node)
        ++ (declarationComma layout ++ (elementGap layout
          ++ (layout.margin ++ ((next.lead ++ valueForm layout next) ++ rest))))))
      = .matched node
        (elementGap layout ++ (layout.margin ++ ((next.lead ++ valueForm layout next) ++ rest))) := by
  obtain ⟨found, separates⟩ := read.separates mem h rest
  have starts : StartsWith startsItem (node.lead ++ valueForm layout node) :=
    (read.shape node mem).starts.mono fun _ => startsItem_of_startsDeclaration
  exact Series.step_of_reads hfront (starts.trimStart _) (read.reads node mem _ (h.declarationEnd rest))
    separates

/-- The declarations fit into their series. -/
theorem SequenceReads.fits (read : SequenceReads layout item gap comma declarations) {tail : Text}
    (ends : SequenceEnd layout tail) :
    (sequenceSeries layout item gap comma).Fits (fun _ => DeclarationEnd layout) declarations tail where
  margin := allSpace_margin layout
  glue := allSpace_elementGap
  item := read.itemDescends
  gap := read.gapDescends
  comma := read.commaDescends
  overhang node _ := allSpace_declarationOverhang node
  starts node mem := by
    obtain ⟨c, rest, shape, starts⟩ : StartsWith _ (node.lead ++ valueForm layout node) :=
      (read.shape node mem).starts
    exact ⟨c, rest, shape, isWhitespace_of_startsItem (startsItem_of_startsDeclaration starts)⟩
  reads := read.reads
  between _ _ next hnext rest := (read.shape next hnext).declarationEnd rest
  separates node mem next hnext rest := by
    obtain ⟨found, separates⟩ := read.separates (List.mem_of_mem_dropLast mem) (read.shape next hnext) rest
    exact ⟨found, elementGap layout, allSpace_elementGap, separates⟩
  atEnd _ _ := ends.toDeclarationEnd
  noComma node _ := by
    refine read.noComma _ ?_
    change ∀ c ∈ (Text.trimStart (declarationOverhang layout node ++ tail)).head?, _
    rw [Text.trimStart_append (allSpace_declarationOverhang node)]
    exact ends.noComma
  ends := read.ends _ ends.noDeclaration

/-- Declarations may go up to the end of the text. -/
theorem sequenceEnd_nil : SequenceEnd layout [] :=
  ⟨declarationEnd_nil, by simp [Text.trimStart], by simp [Text.trimStart]⟩

/-- They may go up to the brace that closes their block. -/
theorem sequenceEnd_brace (rest : Text) :
    SequenceEnd layout.nested (closingBreak layout ++ '}' :: rest) := by
  have trims : Text.trimStart (closingBreak layout ++ '}' :: rest) = '}' :: rest :=
    trimStart_bracket isBreak_closingBreak.allSpace (by decide)
  refine ⟨?_, ?_, ?_⟩
  · unfold closingBreak
    split
    · next compact => exact declarationEnd_cons (by simpa using compact) (by decide) rest
    · refine @declarationEnd_feed layout.nested (layout.margin ++ '}' :: rest) ?_
      rw [trimStart_bracket (allSpace_margin layout) (by decide)]
      simp
  · rw [trims]
    exact (Text.stops_cons ..).mpr (by decide)
  · rw [trims]
    simp

/-- The printed declarations are read back in front of what ends them. -/
theorem SequenceReads.rule_text (read : SequenceReads layout item gap comma declarations)
    {tail : Text} (ends : SequenceEnd layout tail) {front : Text} (hfront : Text.AllSpace front) :
    ∃ left, Text.AllSpace left ∧ (sequenceSeries layout item gap comma).rule
        (front ++ (sequenceForm layout (forms layout declarations) ++ tail))
      = .matched declarations (left ++ tail) := by
  have margins : ∀ node ∈ declarations, node.margin layout = layout.margin :=
    fun node mem => (read.shape node mem).margin
  have series : sequenceForm layout (forms layout declarations)
      = (sequenceSeries layout item gap comma).text declarations :=
    sequenceForm_eq_text margins rfl rfl rfl
  rw [series]
  cases declarations with
  | nil => exact ⟨front, hfront, Series.rule_of_mismatches (read.ends _ ends.noDeclaration) hfront⟩
  | cons node others => exact Series.rule_text (read.fits ends) hfront

/-- The printed declarations are read back inside braces. -/
theorem SequenceReads.body (read : SequenceReads layout.nested item gap comma declarations)
    (rest : Text) :
    ∃ inside left, bodyForm layout (forms layout.nested declarations) ++ rest = '{' :: inside
      ∧ Text.AllSpace left
      ∧ (sequenceSeries layout.nested item gap comma).rule inside
        = .matched declarations (left ++ '}' :: rest) := by
  cases declarations with
  | nil =>
    -- An empty body is printed as two braces with nothing in between.
    have ends : item.Mismatches (Text.trimStart ('}' :: rest)) := by
      rw [Text.trimStart_cons (by decide)]
      exact read.ends _ ((Text.stops_cons ..).mpr (by decide))
    exact ⟨'}' :: rest, [], rfl, Text.allSpace_nil,
      @Series.rule_of_mismatches _ (sequenceSeries layout.nested item gap comma) _ ends []
        Text.allSpace_nil⟩
  | cons node others =>
    obtain ⟨left, allSpace, reads⟩ :=
      read.rule_text (@sequenceEnd_brace layout rest) (@allSpace_openingBreak layout)
    refine ⟨_, left ++ closingBreak layout, ?_, allSpace.append isBreak_closingBreak.allSpace,
      reads.trans (by rw [List.append_assoc])⟩
    rw [bodyForm_eq (by simp [forms_cons])]
    simp only [List.cons_append, List.append_assoc, List.nil_append]

end Sequence

end HclSyntax.Grammar
