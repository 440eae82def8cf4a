import HclSyntax.Proofs.RoundTrip.Expression

/-!
# `HclSyntax.Proofs.RoundTrip.Elements`: lists and calls are read back

The elements of a list and the arguments of a call are printed as a `Series`, in three ways: on lines
of their own, apart by white space, and apart by commas. Where every element is read back
(`ElementReads`), `elements_text` reads back the whole series with its closing bracket, whichever way
it was printed. Lists and calls follow from it.
-/

set_option autoImplicit false

namespace HclSyntax.Grammar

open Rule Node

variable {layout : Layout}

/-! ### Elements -/

/-- The printed node is read as the element it is. -/
def ElementReads (layout : Layout) (node : Node) : Prop :=
  ∀ rest, ElementEnd layout node rest →
    (comment <|> inner.value) (valueForm layout node ++ rest)
      = .matched node (overhang layout node.terms ++ rest)

/-- A comment is read back where its line ends. -/
theorem comment_form {node : Node} (h : IsComment node) (faithful : Faithful layout.isCompact node)
    {rest : Text} (line : LineEnd layout node rest) :
    comment (valueForm layout node ++ rest) = .matched node rest := by
  cases node with
  | comment style text =>
    cases layout with
    | compact => exact absurd faithful Bool.noConfusion
    | block level => exact comment_append h (line.comment rfl rfl)
  | multilineComment text => exact multilineComment_append h rest
  | _ => exact absurd h id

/-- A comment leaves nothing behind it. -/
theorem overhang_of_comment {node : Node} (h : IsComment node) : overhang layout node.terms = [] := by
  cases node <;> first | exact absurd h id | simp [terms, overhang, isHeredoc]

/-- A comment is read back as an element. -/
theorem comment_element {node : Node} (h : IsComment node)
    (faithful : Faithful layout.isCompact node) : ElementReads layout node := by
  intro rest ends
  rw [overhang_of_comment h, List.nil_append]
  exact orElse_of_matched (comment_form h faithful ends.toLineEnd) _

/-- An expression with these terms ends in a heredoc when its last term does. -/
theorem endsInHeredoc_ofTerms (terms : List Node) :
    (ofTerms terms).endsInHeredoc = lastEndsInHeredoc terms := by
  unfold ofTerms
  split <;> rfl

/-- A value is no comment. -/
theorem AreTerms.isComment {multiline : Bool} {terms : List Node} (h : AreTerms multiline terms) :
    (ofTerms terms).isComment = false := by
  unfold ofTerms
  split
  · exact h.operand.isComment
  · rfl

/-- A value is read back as an element where its terms are. -/
theorem value_element {terms : List Node} (h : AreTerms true terms)
    (read : TermsRead layout terms) : ElementReads layout (ofTerms terms) := by
  intro rest ends
  obtain ⟨c, tail, shape, starts⟩ : StartsWith startsTerm (termsForm layout terms) := h.starts
  -- The rule for elements tries a comment first, and no term starts like one.
  have noHash : (valueForm layout (ofTerms terms) ++ rest).head? ≠ some '#' := by
    rw [valueForm_ofTerms, shape]
    simpa using startsTerm_apart starts (by decide) (by decide)
  have noSlash : (valueForm layout (ofTerms terms) ++ rest).head? ≠ some '/' := by
    rw [valueForm_ofTerms, shape]
    simpa using startsTerm_apart starts (by decide) (by decide)
  rw [orElse_of_mismatches (mismatches_comment noHash noSlash), h.terms_ofTerms]
  exact value_form h read (ends.value h.isComment) fun block heredoc =>
    ends.heredoc block (by rwa [endsInHeredoc_ofTerms])

/-! ### Series of elements -/

/-- Elements in some layout, with what is printed around them. -/
def elementSeries (layout : Layout) (margin glue : Text) (separator : Node → Text) :
    Series Node where
  item := comment <|> inner.value
  gap := whitespace
  comma := char ','
  margin := margin
  glue := glue
  form := valueForm layout
  separator := separator
  overhang element := overhang layout element.terms

/-- Elements are read as a series up to the closing bracket. -/
theorem elements_eq (layout : Layout) (margin glue : Text) (separator : Node → Text)
    (bracket : Char) (construct : Construct) :
    elements inner bracket construct
      = (elementSeries layout margin glue separator).rule >>= fun found =>
          closing bracket construct >>= fun _ => pure found := rfl

/-- What makes elements readable the way they are printed. -/
structure ElementsRead (layout : Layout) (glue : Text) (separator : Node → Text)
    (elements : List Node) (tail : Text) : Prop where
  shape : ∀ element ∈ elements, IsElement element
  reads : ∀ element ∈ elements, ElementReads layout element
  /-- All but the last element have a comma behind them, unless they are comments. -/
  separated : ∀ element ∈ elements.dropLast,
    separator element = [','] ∨ separator element = [] ∧ IsComment element
  between : ∀ element ∈ elements.dropLast, ∀ more,
    LineEnd layout element (separator element ++ (glue ++ more))
  atEnd : ∀ element ∈ elements.getLast?, LineEnd layout element tail

/-- The white space that `overhang` leaves. -/
theorem allSpace_overhang (terms : List Node) : Text.AllSpace (overhang layout terms) := by
  unfold overhang
  split
  · simp [Text.AllSpace]
    decide
  · exact Text.allSpace_nil

/-- A comma may stand behind white space. -/
theorem comma_matched {space rest : Text} (h : Text.AllSpace space) :
    optional (whitespace >>= fun _ => char ',') (space ++ ',' :: rest)
      = .matched (some ',') rest := by
  refine optional_of_matched (bind_matched_iff.mpr ⟨(), ',' :: rest, ?_, char_cons ',' rest⟩)
  rw [whitespace_apply, Text.trimStart_append h, Text.trimStart_cons (by decide)]

/-- Where something else follows the white space there is no comma. -/
theorem comma_mismatches {text : Text} (h : text.trimStart.head? ≠ some ',') :
    (whitespace >>= fun _ => char ',').Mismatches text :=
  Mismatches.behind (whitespace_apply text) (mismatches_char_iff.mpr h)

section Series

variable {margin glue : Text} {separator : Node → Text} {bracket : Char} {space rest : Text}
  {items : List Node}

/-- White space and a closing bracket end an element. -/
theorem expressionEnd_bracket (listed : bracket ∈ [')', ']']) (rest : Text) :
    ExpressionEnd true (bracket :: rest) := by
  have apart : ∀ c ∈ [')', ']'], c ∈ termEnds ∧ Text.isInline c = false ∧ isWhitespace c = false
      ∧ startsOperator c = false := by decide
  obtain ⟨ends, notInline, notSpace, noOperator⟩ := apart bracket listed
  refine ⟨termEnd_cons ends notInline, ?_⟩
  change Text.Stops _ (Text.trimStart _)
  rw [Text.trimStart_cons notSpace]
  exact (Text.stops_cons ..).mpr noOperator

/-- An expression ends at a line feed, if no operator comes next. -/
theorem expressionEnd_feed {text : Text} (h : Text.Stops startsOperator text.trimStart) :
    ExpressionEnd true ('\n' :: text) := by
  refine ⟨termEnd_cons (by decide) (by decide), ?_⟩
  have feed : isWhitespace '\n' = true := by decide
  change Text.Stops _ (List.dropWhile _ _)
  rw [List.dropWhile_cons_of_pos feed]
  exact h

/-- An expression ends at a comma. -/
theorem expressionEnd_comma (text : Text) : ExpressionEnd true (',' :: text) := by
  refine ⟨termEnd_cons (by decide) (by decide), ?_⟩
  change Text.Stops _ (Text.trimStart _)
  rw [Text.trimStart_cons (by decide)]
  exact (Text.stops_cons ..).mpr (by decide)

/-- What is printed in front of a closing bracket: nothing, or a line break and white space. -/
def IsBreak (space : Text) : Prop :=
  space = [] ∨ ∃ more, space = '\n' :: more ∧ Text.AllSpace more

/-- A break is white space. -/
theorem IsBreak.allSpace (h : IsBreak space) : Text.AllSpace space := by
  rcases h with rfl | ⟨more, rfl, allSpace⟩
  · exact Text.allSpace_nil
  · intro c hc
    rcases List.mem_cons.mp hc with rfl | hc
    · decide
    · exact allSpace c hc

/-- Behind white space stands the closing bracket. -/
theorem trimStart_bracket (h : Text.AllSpace space) (listed : bracket ∈ [')', ']', '}']) :
    Text.trimStart (space ++ bracket :: rest) = bracket :: rest := by
  have apart : ∀ c ∈ [')', ']', '}'], isWhitespace c = false := by decide
  rw [Text.trimStart_append h, Text.trimStart_cons (apart bracket listed)]

/-- The elements of a list or call fit into their series. -/
theorem ElementsRead.fits (listed : bracket ∈ [')', ']']) (closes : bracket ∈ [')', ']', '}'])
    (read : ElementsRead layout glue separator items (space ++ bracket :: rest))
    (hmargin : Text.AllSpace margin) (hglue : Text.AllSpace glue)
    (tail : IsBreak space) :
    (elementSeries layout margin glue separator).Fits (ElementEnd layout) items
      (space ++ bracket :: rest) where
  margin := hmargin
  glue := hglue
  item := inferInstanceAs (Descends (comment <|> inner.value))
  gap := inferInstanceAs (Descends whitespace)
  comma := inferInstanceAs (Descends (char ','))
  overhang element _ := allSpace_overhang element.terms
  starts element mem := by
    obtain ⟨c, more, shape, starts⟩ : StartsWith startsItem (valueForm layout element) :=
      (read.shape element mem).starts
    exact ⟨c, more, shape, isWhitespace_of_startsItem starts⟩
  reads := read.reads
  between element mem next _ more := by
    refine ⟨read.between element mem _, fun notComment => ?_⟩
    rcases read.separated element mem with comma | ⟨-, isComment⟩
    · rw [show (elementSeries layout margin glue separator).separator element = [','] from comma]
      exact expressionEnd_comma _
    · simp [isComment.isComment] at notComment
  separates element mem next hnext more := by
    obtain ⟨c, form, shape, starts⟩ : StartsWith startsItem (valueForm layout next) :=
      (read.shape next hnext).starts
    -- Behind an element stands its comma, or nothing when it is a comment: then the next element
    -- comes, which starts with no comma.
    change ∃ found left, Text.AllSpace left ∧ optional (whitespace >>= fun _ => char ',')
        (overhang layout element.terms ++ (separator element
          ++ (glue ++ (margin ++ (valueForm layout next ++ more)))))
      = .matched found (left ++ (margin ++ (valueForm layout next ++ more)))
    rcases read.separated element mem with comma | ⟨none, isComment⟩
    · rw [comma]
      exact ⟨some ',', glue, hglue, comma_matched (allSpace_overhang _)⟩
    · rw [none, overhang_of_comment isComment, List.nil_append, List.nil_append]
      refine ⟨_, glue, hglue, optional_of_mismatches (comma_mismatches ?_)⟩
      rw [Text.trimStart_append hglue, Text.trimStart_append hmargin, shape, List.cons_append,
        Text.trimStart_cons (isWhitespace_of_startsItem starts)]
      simpa using startsItem_apart starts (by decide)
  atEnd element mem := by
    refine ⟨read.atEnd element mem, fun _ => ?_⟩
    rcases tail with rfl | ⟨more, rfl, allSpace⟩
    · exact expressionEnd_bracket listed rest
    · refine @expressionEnd_feed (more ++ bracket :: rest) ?_
      rw [trimStart_bracket allSpace closes]
      have apart : ∀ c ∈ [')', ']'], startsOperator c = false := by decide
      exact (Text.stops_cons ..).mpr (apart bracket listed)
  noComma element _ := by
    refine comma_mismatches ?_
    have trims : Text.trimStart (overhang layout element.terms ++ (space ++ bracket :: rest))
        = bracket :: rest := by
      rw [Text.trimStart_append (allSpace_overhang _), trimStart_bracket tail.allSpace closes]
    change (Text.trimStart (overhang layout element.terms ++ (space ++ bracket :: rest))).head? ≠ _
    rw [trims]
    simpa using (by decide : ∀ c ∈ [')', ']'], c ≠ ',') bracket listed
  ends := by
    rw [trimStart_bracket tail.allSpace closes]
    exact mismatches_element closes rest

/-- The printed elements are read back up to the closing bracket. -/
theorem elements_text {front : Text} {element : Node} {others : List Node} (construct : Construct)
    (listed : bracket ∈ [')', ']'])
    (read : ElementsRead layout glue separator (element :: others) (space ++ bracket :: rest))
    (hmargin : Text.AllSpace margin) (hglue : Text.AllSpace glue) (hfront : Text.AllSpace front)
    (tail : IsBreak space) :
    elements inner bracket construct
        (front ++ ((elementSeries layout margin glue separator).text (element :: others)
          ++ (space ++ bracket :: rest)))
      = .matched (element :: others) rest := by
  have closes : bracket ∈ [')', ']', '}'] :=
    (by decide : ∀ c ∈ [')', ']'], c ∈ [')', ']', '}']) bracket listed
  obtain ⟨left, allSpace, reads⟩ :=
    Series.rule_text (read.fits listed closes hmargin hglue tail) hfront
  rw [elements_eq layout margin glue separator]
  refine bind_matched_iff.mpr ⟨_, _, reads, bind_matched_iff.mpr ⟨(), rest, ?_, rfl⟩⟩
  refine closing_matched_iff.mpr ?_
  rw [Text.trimStart_append allSpace, trimStart_bracket tail.allSpace closes]

/-- Nothing is read in front of the closing bracket. -/
theorem elements_nil (construct : Construct) (listed : bracket ∈ [')', ']', '}']) (rest : Text) :
    elements inner bracket construct (bracket :: rest) = .matched [] rest := by
  rw [elements_eq .compact [] [] fun _ => []]
  have trims : Text.trimStart (bracket :: rest) = bracket :: rest :=
    trimStart_bracket Text.allSpace_nil listed
  have ends : (elementSeries .compact [] [] fun _ => []).item.Mismatches
      (Text.trimStart (bracket :: rest)) := by
    rw [trims]
    exact mismatches_element listed rest
  refine bind_matched_iff.mpr ⟨[], bracket :: rest, Series.rule_of_mismatches ends Text.allSpace_nil,
    bind_matched_iff.mpr ⟨(), rest, closing_matched_iff.mpr trims, rfl⟩⟩

end Series

/-! ### Lists -/

/-- A boolean does not start like the word `for`. -/
theorem IsBoolean.apart_forWord {text : Text} (h : IsBoolean text) (more tail : Text) :
    text ++ more ≠ forWord ++ tail := by
  intro shape
  have listed := isBoolean_iff.mp h
  have letters : forWord = ['f', 'o', 'r'] := by simp only [forWord, String.reduceToList]
  rw [letters] at shape
  -- `false` has the first letter too, so it is the second one that tells them apart.
  rcases text with _ | ⟨d, _ | ⟨e, text⟩⟩
  · exact absurd listed (by decide)
  · simp at listed
  · obtain ⟨-, same⟩ := List.cons.inj shape
    obtain ⟨rfl, -⟩ := List.cons.inj same
    have other : 'o'.toLower = 'o' := by decide
    simp [other] at listed

/-- An operand that starts with the word `for` in front of white space is that word. -/
theorem eq_forWord_of_operand {node : Node} (h : IsOperand node) {more tail : Text} {c : Char}
    (follows : OperandEnd node more) (shape : valueForm layout node ++ more = forWord ++ c :: tail)
    (space : isWhitespace c = true) : node = .unquotedString forWord := by
  -- Most operands start with a character of their own.
  have head (d : Char) (apart : d ≠ 'f') (starts : ∃ form, valueForm layout node = d :: form) :
      node = .unquotedString forWord := by
    obtain ⟨form, starts⟩ := starts
    rw [starts] at shape
    exact absurd (List.cons.inj shape).1 apart
  cases h with
  | @call name arguments isName =>
    -- The name of the call would be the word, and its parenthesis the white space.
    have chars : ∀ d ∈ name, isCallChar d = true := by
      obtain ⟨text, rest, found⟩ := isName
      exact (functionName_shape found).2.2.1
    have notCallChar : isCallChar c = false := by
      rw [← Bool.not_eq_true]
      intro callChar
      simp [isWhitespace_of_isCallChar callChar] at space
    obtain ⟨form, starts⟩ : ∃ form, valueForm layout (.function (some name) arguments)
        = name ++ '(' :: form := by
      rw [valueForm_function, argumentsForm]
      split <;> exact ⟨_, rfl⟩
    rw [starts, List.append_assoc, List.cons_append] at shape
    obtain ⟨-, behind⟩ := Text.run_unique chars (by decide : ∀ d ∈ forWord, isCallChar d = true)
      ((Text.stops_cons ..).mpr (by decide)) ((Text.stops_cons ..).mpr notCallChar) shape
    obtain ⟨rfl, -⟩ := List.cons.inj behind
    exact absurd space (by decide)
  | group =>
    refine head '(' (by decide) ?_
    rw [valueForm_function, argumentsForm]
    split <;> exact ⟨_, rfl⟩
  | @loop loop _ brackets =>
    exact head loop.opening ((by decide : ∀ pair ∈ loopBrackets, pair.1 ≠ 'f') _ brackets) ⟨_, rfl⟩
  | list => exact head '[' (by decide) (listForm_starts _)
  | map => exact head '{' (by decide) (bodyForm_starts _)
  | heredoc => exact head '<' (by decide) ⟨_, rfl⟩
  | string => exact head '"' (by decide) ⟨_, rfl⟩
  | @numberOrBool text literal =>
    rcases literal with digits | word
    · obtain ⟨d, form, starts, digit⟩ := digits.starts
      refine head d ?_ ⟨form, starts⟩
      rintro rfl
      exact absurd digit (by decide)
    · exact absurd shape (word.apart_forWord more _)
  | @unquoted text plain =>
    -- Nothing but the word and an index can be in such a text, and the index starts with a bracket.
    obtain ⟨front, back, rfl, all, index⟩ := plain.startsPlain
    have notText : isTextChar c = false := by simp [isTextChar, space]
    replace follows : TermEnd more := follows
    have stops : Text.Stops isTextChar (back ++ more) := by
      rcases index with rfl | index
      · exact follows.isTextChar
      · obtain ⟨tail, rfl⟩ := List.head?_eq_some_iff.mp index
        exact (Text.stops_cons ..).mpr (by decide)
    rw [valueForm_unquotedString, List.append_assoc] at shape
    obtain ⟨rfl, behind⟩ := Text.run_unique all (by decide : ∀ d ∈ forWord, isTextChar d = true)
      stops ((Text.stops_cons ..).mpr notText) shape
    rcases index with rfl | index
    · rw [List.append_nil]
    · obtain ⟨tail, rfl⟩ := List.head?_eq_some_iff.mp index
      obtain ⟨rfl, -⟩ := List.cons.inj behind
      exact absurd space (by decide)

/-- A term that starts with the word `for` in front of white space is that word. -/
theorem eq_forWord_of_unary {terms : List Node} (h : IsUnary terms) {more tail : Text} {c : Char}
    (follows : TermEnd more) (shape : termsForm layout terms ++ more = forWord ++ c :: tail)
    (space : isWhitespace c = true) : terms = [.unquotedString forWord] := by
  -- No accessor may stand behind a text, and a sign is not the first letter of the word.
  cases h with
  | bare operand =>
    rw [termsForm_singleton] at shape
    rw [eq_forWord_of_operand operand (follows.operandEnd _) shape space]
  | @accessed node text operand takes isAccessor index =>
    obtain ⟨noHeredoc, noText⟩ := takesAccessor_iff takes
    rw [termsForm_accessor noHeredoc isAccessor.isAccessor, List.append_assoc] at shape
    exact absurd (eq_forWord_of_operand operand (operandEnd_accessor takes index) shape space)
      (noText forWord)
  | @signed sign others isSign unary =>
    rw [termsForm_sign unary.ne_nil, List.singleton_append] at shape
    obtain ⟨rfl, -⟩ := List.cons.inj shape
    exact absurd isSign (by decide)

/-- An expression that starts with the word `for` in front of white space starts with that word as a
term, and ends with it or goes on with an operator. -/
theorem eq_forWord_of_terms {multiline : Bool} {terms : List Node} (h : AreTerms multiline terms)
    {more tail : Text} {c : Char} (follows : TermEnd more)
    (shape : termsForm layout terms ++ more = forWord ++ c :: tail) (space : isWhitespace c = true) :
    ∃ rest, terms = .unquotedString forWord :: rest ∧ (rest = [] → more = c :: tail) := by
  cases h with
  | one unary =>
    obtain rfl := eq_forWord_of_unary unary follows shape space
    refine ⟨[], rfl, fun _ => ?_⟩
    rw [termsForm_singleton] at shape
    exact List.append_cancel_left shape
  | @more _ front symbol back first listed lines others =>
    rw [termsForm_operator first.ne_nil others.ne_nil first.last others.head, List.append_assoc,
      List.append_assoc, List.append_assoc] at shape
    obtain rfl := eq_forWord_of_unary first (operator_behind listed lines _).1 shape space
    exact ⟨.mathSymbol symbol :: back, rfl, by simp⟩

/-- No for expression starts where its word does not. -/
theorem mismatches_forKeyword {text : Text} (h : text.trimStart.head? ≠ some 'f') :
    forKeyword.Mismatches text := by
  rcases answers forKeyword text with mismatch | ⟨_, rest, found⟩
  · exact mismatch
  · rw [(forKeyword_matched_iff.mp found).1] at h
    exact absurd rfl h

section List

variable {margin glue front space rest : Text} {separator : Node → Text} {element : Node}
  {others : List Node}

/-- What stands behind the first element ends it, and a comma comes first if there are more. -/
theorem ElementsRead.behind_first
    (read : ElementsRead layout glue separator (element :: others) (space ++ ']' :: rest))
    (hmargin : Text.AllSpace margin) (hglue : Text.AllSpace glue) (tail : IsBreak space) :
    ∃ after, (elementSeries layout margin glue separator).text (element :: others)
          ++ (space ++ ']' :: rest)
        = margin ++ (valueForm layout element ++ after)
      ∧ ElementEnd layout element after
      ∧ (others = [] ∧ after = space ++ ']' :: rest
        ∨ others ≠ [] ∧ (IsComment element ∨ after.head? = some ',')) := by
  have fits := @ElementsRead.fits layout margin glue separator ']' space rest _ (by decide)
    (by decide) read hmargin hglue tail
  -- This is what `fits` says about one element; only the comma has to be looked at again.
  cases others with
  | nil => exact ⟨space ++ ']' :: rest, by simp [Series.text, elementSeries],
      fits.atEnd element (by simp), .inl ⟨rfl, rfl⟩⟩
  | cons next others =>
    obtain ⟨more, shape⟩ := (elementSeries layout margin glue separator).text_cons next others
    have follows := fits.between element (by simp) next (by simp) (more ++ (space ++ ']' :: rest))
    refine ⟨_, ?_, follows, .inr ⟨by simp, ?_⟩⟩
    · rw [Series.text, shape]
      simp [elementSeries]
    · rcases read.separated element (by simp) with comma | ⟨-, isComment⟩
      · exact .inr (by simp [elementSeries, comma])
      · exact .inl isComment

/-- Inside a list no for expression starts. -/
theorem mismatches_forKeyword_elements
    (read : ElementsRead layout glue separator (element :: others) (space ++ ']' :: rest))
    (hmargin : Text.AllSpace margin) (hglue : Text.AllSpace glue) (hfront : Text.AllSpace front)
    (tail : IsBreak space) (compact : layout.isCompact = true → space = [])
    (faithful : elementsStartFor layout.isCompact (element :: others) = false) :
    forKeyword.Mismatches (front ++ ((elementSeries layout margin glue separator).text
      (element :: others) ++ (space ++ ']' :: rest))) := by
  obtain ⟨after, whole, follows, goesOn⟩ := read.behind_first hmargin hglue tail
  have isElement := read.shape element (by simp)
  have starts : StartsWith startsItem (valueForm layout element) := isElement.starts
  -- The word can only be the first element itself, which `faithful` excludes unless a comma or the
  -- bracket follows at once.
  rcases answers forKeyword (front ++ ((elementSeries layout margin glue separator).text
    (element :: others) ++ (space ++ ']' :: rest))) with mismatch | ⟨_, behind, found⟩
  · exact mismatch
  obtain ⟨word, c, behind, rfl, isSpace⟩ := forKeyword_matched_iff.mp found
  rw [whole, Text.trimStart_append hfront, Text.trimStart_append hmargin, starts.trimStart] at word
  cases isElement with
  | comment isComment =>
    obtain ⟨d, form, marker, hash⟩ : StartsWith _ (valueForm layout element) := isComment.starts
    rw [marker] at word
    obtain ⟨rfl, -⟩ := List.cons.inj word
    exact absurd hash (by decide)
  | @value terms areTerms =>
    have notComment := areTerms.isComment
    rw [valueForm_ofTerms] at word
    obtain ⟨more, rfl, alone⟩ :=
      eq_forWord_of_terms areTerms (follows.value notComment).1 word isSpace
    cases more with
    | cons => simp [ofTerms, elementsStartFor] at faithful
    | nil =>
      -- The word is all there is of the element, so white space stands behind it.
      obtain rfl := alone rfl
      rcases goesOn with ⟨rfl, same⟩ | ⟨-, isComment | comma⟩
      · rcases tail with rfl | ⟨more, rfl, -⟩
        · obtain ⟨rfl, -⟩ := List.cons.inj same
          exact absurd isSpace (by decide)
        · cases block : layout.isCompact with
          | true => exact absurd (compact block) (by simp)
          | false => simp [ofTerms, elementsStartFor, block] at faithful
      · simp [isComment.isComment] at notComment
      · obtain rfl : c = ',' := by simpa using comma
        exact absurd isSpace (by decide)

/-- The list rule takes the elements and the bracket behind them. -/
theorem list_elements {inside rest : Text} {elements : List Node}
    (noFor : forKeyword.Mismatches inside)
    (reads : Grammar.elements inner ']' .list inside = .matched elements rest) :
    operand inner ('[' :: inside) = .matched (.list elements) rest := by
  have letters : Text.Stops isAlphabetic ('[' :: inside) := (Text.stops_cons ..).mpr (by decide)
  have noLoop : (do return .forLoop (← forList) : Rule Node).Mismatches ('[' :: inside) :=
    Mismatches.bind (Mismatches.behind (char_cons '[' inside) (noFor.bind _)) _
  have takes : list inner ('[' :: inside) = .matched (.list elements) rest := by
    refine bind_matched_iff.mpr ⟨_, _, char_cons '[' inside, bind_matched_iff.mpr ⟨(), inside,
      notFollowedBy_matched_iff.mpr ⟨noFor, rfl⟩, ?_⟩⟩
    exact bind_of_matched reads
  rw [operand, orElse_of_mismatches (mismatches_functionCall (mismatches_callStart letters)),
    orElse_of_mismatches (mismatches_parenthesized (by simp)),
    orElse_of_mismatches (mismatches_forObject (by simp)), orElse_of_mismatches noLoop]
  exact orElse_of_matched takes _

end List

/-! ### Line breaks -/

/-- In the compact layout no node needs a line break. -/
theorem lineEnd_of_isCompact (compact : layout.isCompact = true) (node : Node) (rest : Text) :
    LineEnd layout node rest :=
  ⟨fun block => by simp [compact] at block, fun block => by simp [compact] at block⟩

/-- A line feed is what any node needs behind it. -/
theorem lineEnd_feed (node : Node) (rest : Text) : LineEnd layout node ('\n' :: rest) :=
  ⟨fun _ _ => closesLine_feed rest, fun _ _ => (Text.stops_cons ..).mpr (by decide)⟩

/-- The comma printed behind an element. -/
def commaBehind (element : Node) : Text :=
  if element.isComment then [] else [',']

/-- A comment that ends with its line is a comment. -/
theorem isComment_of_isLineComment {node : Node} (h : node.isLineComment = true) :
    node.isComment = true := by
  cases node <;> first | rfl | exact absurd h Bool.false_ne_true

/-- An element with its comma may end a line. -/
theorem lineEnd_commaBehind (node : Node) (rest : Text) :
    LineEnd layout node (commaBehind node ++ '\n' :: rest) := by
  cases comment : node.isComment with
  | true =>
    rw [commaBehind, if_pos comment]
    exact lineEnd_feed node rest
  | false =>
    rw [commaBehind, if_neg (by simp [comment])]
    refine ⟨fun _ _ => closesLine_cons (by decide) (by decide) (closesLine_feed rest),
      fun _ line => ?_⟩
    simp [isComment_of_isLineComment line] at comment

/-- What is printed in front of a closing bracket is a break. -/
theorem isBreak_closingBreak : IsBreak (closingBreak layout) := by
  unfold closingBreak IsBreak
  split
  · exact .inl rfl
  · exact .inr ⟨layout.margin, rfl, allSpace_margin layout⟩

/-- What is printed between two elements is white space. -/
theorem allSpace_elementGap : Text.AllSpace (elementGap layout) := by
  unfold elementGap
  split <;> simp [Text.AllSpace] <;> decide

/-- What is printed behind an opening bracket is white space. -/
theorem allSpace_openingBreak : Text.AllSpace (openingBreak layout) := by
  unfold openingBreak
  split
  · exact Text.allSpace_nil
  · simp [Text.AllSpace]
    decide

/-- In front of a closing bracket on a line of its own any element may end. -/
theorem lineEnd_closingBreak (node : Node) (rest : Text) :
    LineEnd layout.nested node (closingBreak layout ++ rest) := by
  unfold closingBreak
  split
  · next compact => exact lineEnd_of_isCompact (by simpa using compact) node _
  · exact lineEnd_feed node _

/-! ### Lists and calls -/

/-- Elements on lines of their own, or in a compact list. -/
def listSeries (layout : Layout) (glue : Text) : Series Node :=
  elementSeries layout.nested layout.nested.margin glue commaBehind

/-- The elements of a list, and arguments that need lines, fit where a bracket closes them. -/
theorem elementsRead_lines {elements : List Node} {glue rest : Text} {bracket : Char}
    (inside : ∀ element ∈ elements, IsElement element)
    (reads : ∀ element ∈ elements, ElementReads layout.nested element)
    (feeds : layout.isCompact = false → glue = ['\n']) :
    ElementsRead layout.nested glue commaBehind elements
      (closingBreak layout ++ bracket :: rest) where
  shape := inside
  reads := reads
  separated element mem := by
    have isElement := inside element (List.mem_of_mem_dropLast mem)
    unfold commaBehind
    cases isElement with
    | comment comment => exact .inr ⟨if_pos (comment.isComment), comment⟩
    | value terms => exact .inl (if_neg (by simp [terms.isComment]))
  between element _ more := by
    cases compact : layout.isCompact with
    | true => exact lineEnd_of_isCompact (by simpa using compact) element _
    | false =>
      rw [feeds compact]
      exact lineEnd_commaBehind element more
  atEnd element _ := lineEnd_closingBreak element _

/-- An element on a line of its own has the margin of the line. -/
theorem IsElement.margin {node : Node} (h : IsElement node) : node.margin layout = layout.margin := by
  cases h with
  | comment comment => exact comment.bare.2.2
  | value terms =>
    unfold ofTerms
    split
    · cases terms.operand <;> rfl
    · rfl

/-- The lines of elements are the text of their series. -/
theorem join_lines {elements : List Node} (inside : ∀ element ∈ elements, IsElement element)
    (glue : Text) :
    Text.join glue (withCommas layout.nested (forms layout.nested elements))
      = (listSeries layout glue).text elements :=
  @join_withCommas layout.nested (listSeries layout glue) elements
    (fun element mem => (inside element mem).margin) rfl rfl

/-- A list is read back. -/
theorem list_reads {elements : List Node} (inside : ∀ element ∈ elements, IsElement element)
    (reads : ∀ element ∈ elements, ElementReads layout.nested element)
    (faithful : elementsStartFor layout.isCompact elements = false) :
    OperandReads layout (.list elements) := by
  intro rest _ _
  rw [valueForm_list, overhang_of_notHeredoc rfl, List.nil_append]
  cases elements with
  | nil =>
    have noFor : forKeyword.Mismatches (']' :: rest) :=
      mismatches_forKeyword (by rw [Text.trimStart_cons (by decide)]; simp)
    exact list_elements noFor (elements_nil .list (by decide) rest)
  | cons element others =>
    -- The elements are told apart from a for expression and then read as a series.
    have read : ElementsRead layout.nested (elementGap layout) commaBehind (element :: others)
        (closingBreak layout ++ ']' :: rest) :=
      elementsRead_lines inside reads fun block => by simp [elementGap, block]
    rw [listForm_eq (by simp [forms_cons]), join_lines inside (elementGap layout)]
    simp only [List.append_assoc, List.cons_append, List.nil_append]
    refine list_elements ?_ ?_
    · exact mismatches_forKeyword_elements read (allSpace_margin _) allSpace_elementGap
        allSpace_openingBreak isBreak_closingBreak
        (fun compact => by simpa [closingBreak] using compact) (by simpa using faithful)
    · exact elements_text .list (by decide) read (allSpace_margin _) allSpace_elementGap
        allSpace_openingBreak isBreak_closingBreak

/-- A call or group takes the arguments and the parenthesis behind them. -/
theorem call_elements {name : Option Text} (isName : ∀ text ∈ name, IsCallName text)
    {inside rest : Text} {arguments : List Node}
    (reads : ∀ construct, Grammar.elements inner ')' construct inside = .matched arguments rest) :
    operand inner (name.getD [] ++ '(' :: inside) = .matched (.function name arguments) rest := by
  cases name with
  | some text =>
    have takes : functionCall inner (text ++ '(' :: inside)
        = .matched (.function (some text) arguments) rest :=
      bind_matched_iff.mpr ⟨_, _, callStart_append (isName text rfl) inside,
        bind_of_matched (reads .functionCall)⟩
    exact orElse_of_matched takes _
  | none =>
    have letters : Text.Stops isAlphabetic ('(' :: inside) := (Text.stops_cons ..).mpr (by decide)
    have takes : parenthesized inner ('(' :: inside) = .matched (.function none arguments) rest :=
      bind_matched_iff.mpr ⟨_, _, char_cons '(' inside, bind_of_matched (reads .parenthesized)⟩
    change operand inner ('(' :: inside) = _
    rw [operand, orElse_of_mismatches (mismatches_functionCall (mismatches_callStart letters))]
    exact orElse_of_matched takes _

/-- Arguments on one line are no comments. -/
theorem isComment_of_onOneLine {arguments : List Node} (oneLine : onOneLine arguments = true)
    {argument : Node} (mem : argument ∈ arguments) : argument.isComment = false := by
  simp only [onOneLine, Bool.not_eq_true', List.any_eq_false, Bool.or_eq_true, not_or] at oneLine
  simpa using (oneLine argument mem).1

/-- Arguments on the line of their call fit where the parenthesis closes them. -/
theorem elementsRead_oneLine {name : Option Text} {arguments : List Node} {rest : Text}
    (inside : ∀ argument ∈ arguments, IsElement argument)
    (reads : ∀ argument ∈ arguments, ElementReads layout argument)
    (oneLine : layout.isCompact = false → onOneLine arguments = true)
    (faithful : Faithful layout.isCompact (.function name arguments))
    (line : LineEnd layout (.function name arguments) rest) :
    ElementsRead layout [' '] (fun _ => [',']) arguments (')' :: rest) where
  shape := inside
  reads := reads
  separated _ _ := .inl rfl
  between argument mem more := by
    -- No argument but the last may end in a heredoc, and none is a comment.
    refine ⟨fun block ends => ?_, fun block line => ?_⟩
    · rw [faithful block (oneLine block) argument mem] at ends
      exact absurd ends Bool.false_ne_true
    · have comment := isComment_of_isLineComment line
      rw [isComment_of_onOneLine (oneLine block) (List.mem_of_mem_dropLast mem)] at comment
      exact absurd comment Bool.false_ne_true
  atEnd argument last := by
    -- The call ends in a heredoc when its last argument does, so its own line ends behind it.
    refine ⟨fun block ends => ?_, fun block line => ?_⟩
    · refine closesLine_cons (by decide) (by decide) (line.heredoc block ?_)
      rw [endsInHeredoc, oneLine block, lastEndsInHeredoc_eq, Option.mem_def.mp last]
      exact ends
    · have comment := isComment_of_isLineComment line
      rw [isComment_of_onOneLine (oneLine block) (List.mem_of_getLast? last)] at comment
      exact absurd comment Bool.false_ne_true

/-- A call or group is read back. -/
theorem function_reads {name : Option Text} {arguments : List Node}
    (isName : ∀ text ∈ name, IsCallName text)
    (inside : ∀ argument ∈ arguments, IsElement argument)
    (reads : ∀ argument ∈ arguments, ElementReads (argumentLayout layout arguments) argument)
    (faithful : Faithful layout.isCompact (.function name arguments)) :
    OperandReads layout (.function name arguments) := by
  intro rest _ line
  rw [valueForm_function, overhang_of_notHeredoc rfl, List.nil_append, List.append_assoc]
  cases needed : needsLines layout arguments with
  | true =>
    -- Without arguments no lines are needed.
    obtain ⟨argument, others, rfl⟩ : ∃ argument others, arguments = argument :: others := by
      cases arguments with
      | nil => simp [needsLines_eq, onOneLine] at needed
      | cons argument others => exact ⟨argument, others, rfl⟩
    rw [argumentLayout, if_pos needed] at reads
    have read := @elementsRead_lines layout _ ['\n'] rest ')' inside reads fun _ => rfl
    rw [argumentsForm_lines needed, join_lines inside]
    simp only [List.append_assoc, List.cons_append, List.nil_append]
    have feed : Text.AllSpace ['\n'] := by
      simp [Text.AllSpace]
      decide
    exact call_elements isName fun construct => elements_text construct (by decide) read
      (allSpace_margin _) feed feed isBreak_closingBreak
  | false =>
    rw [argumentLayout, if_neg (by simp [needed])] at reads
    rw [argumentsForm_oneLine needed]
    cases arguments with
    | nil => exact call_elements isName fun construct => elements_nil construct (by decide) rest
    | cons argument others =>
      have oneLine : layout.isCompact = false → onOneLine (argument :: others) = true := by
        intro block
        simpa [needsLines_eq, block] using needed
      have read := elementsRead_oneLine inside reads oneLine faithful line
      -- On one line the arguments are joined by a comma and a space, which are the comma of the
      -- series and its glue.
      have series : Text.join [',', ' '] ((argument :: others).map (valueForm layout))
          = (elementSeries layout [] [' '] fun _ => [',']).text (argument :: others) :=
        join_map_eq_text (fun _ _ => rfl) fun _ _ => rfl
      have blank : Text.AllSpace [' '] := by
        simp [Text.AllSpace]
        decide
      rw [series]
      simp only [List.append_assoc, List.cons_append]
      exact call_elements isName fun construct => @elements_text layout [] [' '] (fun _ => [','])
        ')' [] rest [] argument others construct (by decide) read Text.allSpace_nil blank
        Text.allSpace_nil (.inl rfl)

end HclSyntax.Grammar
