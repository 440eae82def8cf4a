import HclSyntax.Proofs.RoundTrip.Sequence

/-!
# `HclSyntax.Proofs.RoundTrip.Block`: blocks are read back

The header of a block decides which of the rules for blocks reads it: one without labels, one with a
single label, or one with two. The words `dynamic` and `function` may also be names, and are told from
the keywords by what follows them.
-/

set_option autoImplicit false

namespace HclSyntax.Grammar

open Rule Node

variable {layout : Layout}

/-! ### The name of a block -/

/-- The word that makes a block dynamic. -/
def dynamicWord : Text := "dynamic".toList

/-- The keyword of a dynamic block could be a name. -/
theorem dynamicWord_chars : dynamicWord ≠ [] ∧ ∀ d ∈ dynamicWord, isNameChar d = true := by
  decide

/-- A keyword is taken in front of a space. -/
theorem keyword_space (word more : Text) :
    keyword word (word ++ ' ' :: more) = .matched word (' ' :: more) :=
  keyword_matched_iff.mpr ⟨rfl, rfl, ' ', more, rfl, by decide⟩

/-- A name is read as one, also the word `dynamic` where no other name follows. -/
theorem blockName_source {name : Name} (h : IsName name) (ends : NameEnds name) {more : Text}
    (noName : name = .bare dynamicWord → propertyName.Mismatches (Text.trimStart more)) :
    blockName (name.source ++ ' ' :: more) = .matched (false, name) (' ' :: more) := by
  have reads := propertyName_source h ends ((Text.stops_cons isNameChar ' ' more).mpr (by decide))
  have second := map_of_matched reads fun name => (false, name)
  refine (orElse_of_mismatches ?_ _).trans second
  -- The rule tries the keyword first, and gives it up where no other name follows.
  by_cases same : name = .bare dynamicWord
  · subst same
    refine Mismatches.behind (keyword_space dynamicWord more)
      (Mismatches.behind (whitespace_apply _) ?_)
    rw [Text.trimStart_space]
    exact (noName rfl).bind _
  · exact Mismatches.bind
      (mismatches_keyword_source h dynamicWord_chars.1 dynamicWord_chars.2 same more) _

/-- A name is no white space. -/
theorem IsName.trimStart {name : Name} (h : IsName name) (more : Text) :
    Text.trimStart (name.source ++ more) = name.source ++ more := by
  have starts := h.starts.mono fun _ starts =>
    startsItem_of_startsDeclaration (startsDeclaration_of_startsName starts)
  exact starts.trimStart more

/-- The word `dynamic` and the name behind it. -/
theorem blockName_dynamic {name : Name} (h : IsName name) (ends : NameEnds name) (more : Text) :
    blockName (dynamicWord ++ ' ' :: (name.source ++ ' ' :: more))
      = .matched (true, name) (' ' :: more) := by
  have reads := propertyName_source h ends ((Text.stops_cons isNameChar ' ' more).mpr (by decide))
  refine orElse_of_matched (bind_matched_iff.mpr ⟨_, _, keyword_space dynamicWord _,
    bind_matched_iff.mpr ⟨(), _, ?_, map_of_matched reads fun name => (true, name)⟩⟩) _
  rw [whitespace_apply, Text.trimStart_space, h.trimStart]

/-! ### Bodies -/

/-- What is read between the braces of a block or map and in a document. -/
def declarationSeries (layout : Layout) : Series Node :=
  sequenceSeries layout (declaration inner) whitespace (oneOf [',', ';'])

/-- Declarations are read as a series. -/
theorem declarations_series (layout : Layout) (text : Text) :
    declarations text = (declarationSeries layout).rule text :=
  declarations_eq text

/-- A body takes the declarations in it and both braces. -/
theorem blockBody_text {declarations : List Node} {inside left rest : Text}
    (reads : (declarationSeries layout).rule inside = .matched declarations (left ++ '}' :: rest))
    (hleft : Text.AllSpace left) :
    blockBody inner (' ' :: '{' :: inside) = .matched declarations rest := by
  have opens : Text.trimStart (' ' :: '{' :: inside) = '{' :: inside := by
    rw [Text.trimStart_space, Text.trimStart_cons (by decide)]
  have closes : Text.trimStart (left ++ '}' :: rest) = '}' :: rest :=
    trimStart_bracket hleft (by decide)
  have whole : (do
      let found ← inner.declarations
      whitespace
      let _ ← char '}'
      return found : Rule (List Node)) inside = .matched declarations rest :=
    bind_matched_iff.mpr ⟨declarations, _, (declarations_series layout inside).trans reads,
      bind_matched_iff.mpr ⟨(), _, whitespace_matched_iff.mpr closes,
        bind_of_matched (char_cons '}' rest)⟩⟩
  refine bind_matched_iff.mpr ⟨(), _, whitespace_matched_iff.mpr opens, bind_matched_iff.mpr
    ⟨'{', inside, char_cons '{' inside, ?_⟩⟩
  rw [body, whole]

/-! ### Headers -/

/-- What stands in front of the name of a block. -/
def dynamicMark (isDynamic : Bool) : Text :=
  if isDynamic then dynamicWord ++ [' '] else []

section Header

variable {name : Name} {isDynamic : Bool} {first second : Text} {declarations : List Node}
  {inside rest : Text}

/-- The name of a block is read, with the word before it. -/
theorem blockName_mark (isName : IsName name) (ends : NameEnds name) {more : Text}
    (noName : isDynamic = false → name = .bare dynamicWord →
      propertyName.Mismatches (Text.trimStart more)) :
    blockName (dynamicMark isDynamic ++ (name.source ++ ' ' :: more))
      = .matched (isDynamic, name) (' ' :: more) := by
  cases isDynamic with
  | true =>
    rw [dynamicMark, if_pos rfl, List.append_assoc]
    exact blockName_dynamic isName ends more
  | false => exact blockName_source isName ends (noName rfl)

/-- A block without labels is read back. -/
theorem namedBlock_reads (isName : IsName name) (ends : NameEnds name)
    (body : blockBody inner (' ' :: '{' :: inside) = .matched declarations rest) :
    declaration inner (dynamicMark isDynamic ++ (name.source ++ ' ' :: '{' :: inside))
      = .matched (.block ⟨name, isDynamic, none, none⟩ declarations) rest := by
  have noName : propertyName.Mismatches (Text.trimStart ('{' :: inside)) := by
    rw [Text.trimStart_cons (by decide)]
    exact mismatches_propertyName ((Text.stops_cons ..).mpr (by decide))
  have named := @blockName_mark name isDynamic isName ends ('{' :: inside) fun _ _ => noName
  exact orElse_of_matched (bind_matched_iff.mpr ⟨_, _, named, bind_of_matched body⟩) _

/-- An equals sign stands on its line, or a colon does. -/
theorem mismatches_equals {text : Text}
    (h : ∀ c ∈ (Text.trimInline text).head?, c ∉ ['=', ':']) : equals.Mismatches text := by
  refine Mismatches.behind (inlineWhitespace_apply text) (Mismatches.bind ?_ _)
  refine mismatches_orElse_iff.mpr ⟨Mismatches.bind (mismatches_char_iff.mpr fun head => ?_) _,
    Mismatches.bind (mismatches_char_iff.mpr fun head => ?_) _⟩
  · exact h '=' head (by decide)
  · exact h ':' head (by decide)

/-- No equals sign stands behind a space and the start of a name. -/
theorem mismatches_equals_name {text : Text} (h : StartsWith startsName text) :
    equals.Mismatches (' ' :: text) := by
  obtain ⟨c, tail, rfl, starts⟩ := h
  have notSpace := isWhitespace_of_startsItem (startsItem_of_startsDeclaration
    (startsDeclaration_of_startsName starts))
  have blank : Text.isInline ' ' = true := by decide
  have trims : Text.trimInline (' ' :: c :: tail) = c :: tail := by
    rw [Text.trimInline, List.dropWhile_cons_of_pos blank]
    exact Text.trimInline_of_stops ((Text.stops_cons ..).mpr (by simp [Text.isInline, notSpace]))
  -- Behind the space stands the start of a name, which is no sign.
  refine mismatches_equals ?_
  rw [trims]
  intro d hd listed
  obtain rfl := Option.some.inj hd
  have apart : ∀ c ∈ ['=', ':'], startsName c = false := by decide
  simp [apart c listed] at starts

/-- A quoted label starts as a name does. -/
theorem quote_starts (content more : Text) : StartsWith startsName (content.quote ++ more) :=
  ⟨'"', _, rfl, by decide⟩

/-- A property has an equals sign behind its name. -/
theorem mismatches_assignment {α : Type} (isName : IsName name) (ends : NameEnds name) {more : Text}
    (noEquals : equals.Mismatches (' ' :: more)) (next : Name → Rule α) :
    (propertyName >>= fun name => equals >>= fun _ => next name).Mismatches
      (dynamicMark isDynamic ++ (name.source ++ ' ' :: more)) := by
  have blank (tail : Text) : Text.Stops isNameChar (' ' :: tail) :=
    (Text.stops_cons ..).mpr (by decide)
  -- The name of the property would be the word `dynamic` or the name of the block.
  cases isDynamic with
  | true =>
    have isDynamicName : IsName (.bare dynamicWord) := fun _ =>
      .bare dynamicWord_chars.1 dynamicWord_chars.2
    have reads := propertyName_source isDynamicName nofun (blank (name.source ++ ' ' :: more))
    rw [dynamicMark, if_pos rfl, List.append_assoc]
    exact Mismatches.behind reads ((mismatches_equals_name (isName.starts.append _)).bind _)
  | false =>
    exact Mismatches.behind (propertyName_source isName ends (blank more)) (noEquals.bind _)

/-- Behind the name of a block with a label, properties are left out. -/
theorem declaration_labelled (isName : IsName name) (ends : NameEnds name) {more : Text}
    (noName : isDynamic = false → name ≠ .bare dynamicWord) :
    declaration inner (dynamicMark isDynamic ++ (name.source ++ ' ' :: (first.quote ++ more)))
      = (functionDeclaration inner <|> labelledBlock inner <|> typedBlock inner <|> scalarProperty
          <|> unquotedProperty inner <|> listProperty inner <|> mapProperty inner <|> heredocProperty
          <|> comment <|> forListProperty)
        (dynamicMark isDynamic ++ (name.source ++ ' ' :: (first.quote ++ more))) := by
  have named := @blockName_mark name isDynamic isName ends (first.quote ++ more)
    fun bare same => absurd same (noName bare)
  have noBody : (blockBody inner).Mismatches (' ' :: (first.quote ++ more)) := by
    refine mismatches_blockBody ?_
    rw [Text.trimStart_space]
    exact fun head => absurd (Option.some.inj head) (by decide)
  -- Behind the name stands a label, so there is neither a body nor an equals sign.
  have noProperty {α : Type} (next : Name → Rule α) :=
    @mismatches_assignment name isDynamic α isName ends _
      (mismatches_equals_name (quote_starts first more)) next
  have noNamed : (namedBlock inner).Mismatches _ := Mismatches.behind named (noBody.bind _)
  have noTyped : typedProperty.Mismatches _ := noProperty _
  have noCall : (functionProperty inner).Mismatches _ := noProperty _
  have noLoop : (forObjectProperty inner).Mismatches _ := noProperty _
  rw [declaration, orElse_of_mismatches noNamed, orElse_of_mismatches noTyped,
    orElse_of_mismatches noCall, orElse_of_mismatches noLoop]

/-- The space in front of a quoted label is skipped. -/
theorem whitespace_quote (content more : Text) :
    whitespace (' ' :: (content.quote ++ more)) = .matched () (content.quote ++ more) := by
  rw [whitespace_apply, Text.trimStart_space]
  exact congrArg _ (Text.trimStart_cons (by decide) _)

/-- The word that declares a function. -/
def functionWord : Text := "function".toList

/-- Only a block named `function` is declared as a function. -/
theorem mismatches_functionDeclaration (isName : IsName name)
    (other : ¬ (isDynamic = false ∧ name = .bare functionWord)) (more : Text) :
    (functionDeclaration inner).Mismatches (dynamicMark isDynamic ++ (name.source ++ ' ' :: more)) := by
  cases isDynamic with
  | true =>
    refine Mismatches.bind (mismatches_keyword ?_) _
    rintro ⟨tail, same⟩
    exact absurd (List.cons.inj same).1 (by decide)
  | false =>
    exact Mismatches.bind (mismatches_keyword_source isName (by decide) (by decide)
      (fun same => other ⟨rfl, same⟩) more) _

/-- A label and a body behind it. -/
theorem label_body (firstEnds : first.sequencesEnd = true)
    (body : blockBody inner (' ' :: '{' :: inside) = .matched declarations rest)
    (wrap : Text → List Node → Node) :
    (do
      whitespace
      let first ← label
      let declarations ← blockBody inner
      return wrap first declarations : Rule Node) (' ' :: (first.quote ++ ' ' :: '{' :: inside))
      = .matched (wrap first declarations) rest := by
  refine bind_matched_iff.mpr ⟨(), _, whitespace_quote first _,
    bind_matched_iff.mpr ⟨_, _, label_quote firstEnds _, bind_of_matched body⟩⟩

/-- Between a label and another one there is no body. -/
theorem mismatches_label_body (firstEnds : first.sequencesEnd = true) (more : Text)
    (wrap : Text → List Node → Node) :
    (do
      whitespace
      let first ← label
      let declarations ← blockBody inner
      return wrap first declarations : Rule Node).Mismatches
        (' ' :: (first.quote ++ ' ' :: (second.quote ++ more))) := by
  have noBody : (blockBody inner).Mismatches (' ' :: (second.quote ++ more)) := by
    refine mismatches_blockBody ?_
    rw [Text.trimStart_space]
    exact fun head => absurd (Option.some.inj head) (by decide)
  exact Mismatches.behind (whitespace_quote first _)
    (Mismatches.behind (label_quote firstEnds _) (noBody.bind _))

/-- A block with one label is read back. -/
theorem labelledBlock_reads (isName : IsName name) (ends : NameEnds name)
    (firstEnds : first.sequencesEnd = true) (noName : isDynamic = false → name ≠ .bare dynamicWord)
    (body : blockBody inner (' ' :: '{' :: inside) = .matched declarations rest) :
    declaration inner (dynamicMark isDynamic
        ++ (name.source ++ ' ' :: (first.quote ++ ' ' :: '{' :: inside)))
      = .matched (.block ⟨name, isDynamic, some first, none⟩ declarations) rest := by
  rw [declaration_labelled isName ends noName]
  -- A block named `function` with one label is read by the rule for declarations of functions, with
  -- the same result.
  by_cases function : isDynamic = false ∧ name = .bare functionWord
  · obtain ⟨rfl, rfl⟩ := function
    exact orElse_of_matched (bind_matched_iff.mpr ⟨_, _, keyword_space functionWord _,
      label_body firstEnds body fun first => .block ⟨.bare functionWord, false, some first, none⟩⟩) _
  · have named := @blockName_mark name isDynamic isName ends (first.quote ++ ' ' :: '{' :: inside)
      fun bare same => absurd same (noName bare)
    rw [orElse_of_mismatches (mismatches_functionDeclaration isName function _)]
    exact orElse_of_matched (bind_matched_iff.mpr ⟨_, _, named, bind_matched_iff.mpr ⟨_, _,
      optional_of_mismatches (mismatches_equals_name (quote_starts first _)),
      label_body firstEnds body fun first => .block ⟨name, isDynamic, some first, none⟩⟩⟩) _

/-- A block with two labels is read back. -/
theorem typedBlock_reads (isName : IsName name) (ends : NameEnds name)
    (firstEnds : first.sequencesEnd = true) (secondEnds : second.sequencesEnd = true)
    (noName : isDynamic = false → name ≠ .bare dynamicWord)
    (body : blockBody inner (' ' :: '{' :: inside) = .matched declarations rest) :
    declaration inner (dynamicMark isDynamic ++ (name.source
        ++ ' ' :: (first.quote ++ ' ' :: (second.quote ++ ' ' :: '{' :: inside))))
      = .matched (.block ⟨name, isDynamic, some first, some second⟩ declarations) rest := by
  have named := @blockName_mark name isDynamic isName ends
    (first.quote ++ ' ' :: (second.quote ++ ' ' :: '{' :: inside))
    fun bare same => absurd same (noName bare)
  have noFunction : (functionDeclaration inner).Mismatches (dynamicMark isDynamic ++ (name.source
      ++ ' ' :: (first.quote ++ ' ' :: (second.quote ++ ' ' :: '{' :: inside)))) := by
    by_cases function : isDynamic = false ∧ name = .bare functionWord
    · obtain ⟨rfl, rfl⟩ := function
      exact Mismatches.behind (keyword_space functionWord _) (mismatches_label_body firstEnds _
        fun first => .block ⟨.bare functionWord, false, some first, none⟩)
    · exact mismatches_functionDeclaration isName function _
  -- The rule for one label reads the first label and misses the body, where the second label
  -- stands.
  have noLabelled : (labelledBlock inner).Mismatches _ := Mismatches.behind named (Mismatches.behind
    (optional_of_mismatches (mismatches_equals_name (quote_starts first _)))
    (mismatches_label_body firstEnds (' ' :: '{' :: inside) fun first =>
      .block ⟨name, isDynamic, some first, none⟩))
  rw [declaration_labelled isName ends noName, orElse_of_mismatches noFunction,
    orElse_of_mismatches noLabelled]
  exact orElse_of_matched (bind_matched_iff.mpr ⟨_, _, named, bind_matched_iff.mpr ⟨(), _,
    whitespace_quote first _, bind_matched_iff.mpr ⟨_, _, label_quote firstEnds _,
      label_body secondEnds body fun second =>
        .block ⟨name, isDynamic, some first, some second⟩⟩⟩⟩) _

end Header

/-! ### Blocks -/

/-- What stands in front of the body, taken apart. -/
theorem source_body (header : BlockHeader) (more : Text) :
    header.source ++ more = dynamicMark header.isDynamic ++ (header.name.source
      ++ (BlockHeader.source.labelSource header.label
        ++ (BlockHeader.source.labelSource header.typeLabel ++ more))) := by
  have mark : (if header.isDynamic then "dynamic ".toList else []) = dynamicMark header.isDynamic := by
    cases header.isDynamic <;> rfl
  rw [BlockHeader.source, mark]
  simp only [List.append_assoc]

/-- A block is read back when its declarations are. -/
theorem block_reads {header : BlockHeader} {declarations : List Node} (isHeader : IsHeader header)
    (ends : HeaderEnds header) (notDynamic : header.becomesDynamic = false)
    (read : SequenceReads layout.nested (declaration inner) whitespace (oneOf [',', ';'])
      declarations) :
    ItemReads (declaration inner) layout (.block header declarations) := by
  intro rest _
  obtain ⟨inside, left, shape, allSpace, taken⟩ := read.body rest
  have body : blockBody inner (' ' :: '{' :: inside) = .matched declarations rest :=
    blockBody_text taken allSpace
  have whole : (Node.block header declarations).lead
        ++ valueForm layout (.block header declarations) ++ rest
      = header.source ++ ' ' :: '{' :: inside := by
    rw [valueForm_block, lead, List.append_assoc, List.append_assoc, shape]
    rfl
  obtain ⟨name, isDynamic, label, typeLabel⟩ := header
  -- With a label the bare name `dynamic` would be read as the keyword, which `becomesDynamic`
  -- excludes.
  have noName (labelled : label.isSome = true) : isDynamic = false → name ≠ .bare dynamicWord := by
    rintro rfl rfl
    have word : (Name.bare dynamicWord == .bare "dynamic".toList) = true := by decide
    rw [BlockHeader.becomesDynamic, labelled, Bool.and_true, Bool.not_false, Bool.and_true, word]
      at notDynamic
    exact Bool.noConfusion notDynamic
  have nothing : declarationOverhang layout
      (.block ⟨name, isDynamic, label, typeLabel⟩ declarations) = [] := rfl
  rw [whole, source_body, nothing, List.nil_append]
  cases label with
  | none =>
    cases typeLabel with
    | none => exact namedBlock_reads isHeader.name ends.name body
    | some second => exact absurd (isHeader.labels rfl) Bool.false_ne_true
  | some first =>
    have firstEnds := ends.label first rfl
    cases typeLabel with
    | none =>
      have reads := labelledBlock_reads isHeader.name ends.name firstEnds (noName rfl) body
      simpa [BlockHeader.source.labelSource] using reads
    | some second =>
      have reads := typedBlock_reads isHeader.name ends.name firstEnds (ends.typeLabel second rfl)
        (noName rfl) body
      simpa [BlockHeader.source.labelSource] using reads

end HclSyntax.Grammar
