import HclSyntax.Proofs.Grammar.Tentative
import HclSyntax.Proofs.RoundTrip.Faithful

/-!
# `HclSyntax.Proofs.RoundTrip.Operand`: the terms without brackets are read back

`OperandReads` says that the printed form of a term is read as that term by the rule for operands. The
alternatives of that rule are told apart by their first character, all but three: a name in front of a
parenthesis is a call, and words and numbers are told from unquoted text by what they go on with.
-/

set_option autoImplicit false

namespace HclSyntax.Grammar

open Rule Node

/-- The printed node is read as the operand it is. -/
def OperandReads (layout : Layout) (node : Node) : Prop :=
  ∀ rest, OperandEnd node rest → LineEnd layout node rest →
    operand inner (valueForm layout node ++ rest) = .matched node (overhang layout [node] ++ rest)

variable {layout : Layout}

/-! ### Names in front of a parenthesis -/

/-- Where no parenthesis follows the characters of a name, no call starts. -/
theorem mismatches_callStart_of_head {text : Text}
    (h : (Text.trimInline (text.dropWhile isCallChar)).head? ≠ some '(') :
    callStart.Mismatches text := by
  rcases answers callStart text with mismatch | ⟨name, rest, found⟩
  · exact mismatch
  · exact absurd (head_of_callStart found) h

/-- What a class leaves of a text that starts with plain characters, in front of other text. -/
theorem dropWhile_plain {accepts : Char → Bool} (noBracket : accepts '[' = false) {text : Text}
    (plain : StartsPlain text) (rest : Text) :
    StartsWith (fun c => isTextChar c || c == '[') ((text ++ rest).dropWhile accepts)
      ∨ (text ++ rest).dropWhile accepts = rest.dropWhile accepts := by
  obtain ⟨run, back, rfl, all, index⟩ := plain
  induction run with
  | nil =>
    rcases index with rfl | index
    · exact .inr rfl
    · obtain ⟨tail, rfl⟩ := List.head?_eq_some_iff.mp index
      refine .inl ⟨'[', tail ++ rest, ?_, by decide⟩
      rw [List.nil_append, List.cons_append, List.dropWhile_cons_of_neg (by simp [noBracket])]
  | cons c run ih =>
    by_cases accepted : accepts c = true
    · simp only [List.cons_append, List.dropWhile_cons_of_pos accepted]
      exact ih fun d hd => all d (by simp [hd])
    · refine .inl ⟨c, run ++ back ++ rest, ?_, by simp [all c (by simp)]⟩
      rw [List.cons_append, List.cons_append, List.dropWhile_cons_of_neg accepted]

/-- An unquoted text starts with plain characters. -/
theorem IsUnquotedText.startsPlain {text : Text} (h : IsUnquotedText text) : StartsPlain text := by
  obtain ⟨source, rest, found⟩ := h
  obtain ⟨-, ⟨first, tail, rfl, plain, -, -, run, back, rfl, all, index⟩, -⟩ :=
    unquotedText_shape found
  refine ⟨first :: run, back, rfl, fun c hc => ?_, index⟩
  rcases List.mem_cons.mp hc with rfl | hc
  · exact plain
  · exact all c hc

/-- No call starts where unquoted text ends like a term. -/
theorem mismatches_callStart_unquoted {text rest : Text} (plain : StartsPlain text)
    (follows : TermEnd rest) : callStart.Mismatches (text ++ rest) := by
  refine mismatches_callStart_of_head fun head => ?_
  have noBracket : isCallChar '[' = false := by decide
  -- The name of a call could reach up to some character of the text, or over all of it; no
  -- parenthesis is there either way.
  rcases dropWhile_plain noBracket plain rest with
    ⟨c, tail, shape, accepted⟩ | shape
  · have apart : Text.isInline c = false ∧ c ≠ '(' := by
      simp only [Bool.or_eq_true, beq_iff_eq, isTextChar_iff] at accepted
      rcases accepted with ⟨listed, notSpace⟩ | rfl
      · refine ⟨by simp [Text.isInline, notSpace], ?_⟩
        rintro rfl
        exact listed (by decide)
      · decide
    rw [shape, Text.trimInline_of_stops ((Text.stops_cons ..).mpr apart.1)] at head
    exact apart.2 (by simpa using head)
  · rw [shape, Text.dropWhile_of_stops follows.isCallChar] at head
    exact follows.2 head

/-! ### Literals and unquoted text -/

/-- Where no call and no bracket starts, the other operands are tried. -/
theorem operand_behind_brackets {text : Text} (noCall : callStart.Mismatches text)
    (noMark : ∀ c ∈ text.head?, c ∉ termMarks.take 4) (rules : Inner) :
    operand rules text
      = (scalar <|> (do return .unquotedString (← unquotedText)) : Rule Node) text := by
  have apart (d : Char) (listed : d ∈ termMarks.take 4) : text.head? ≠ some d :=
    fun head => noMark d head listed
  rw [operand, orElse_of_mismatches (mismatches_functionCall noCall),
    orElse_of_mismatches (mismatches_parenthesized (apart _ (by decide))),
    orElse_of_mismatches (mismatches_forObject (apart _ (by decide))),
    orElse_of_mismatches (mismatches_forList (apart _ (by decide))),
    orElse_of_mismatches (mismatches_list (apart _ (by decide))),
    orElse_of_mismatches (mismatches_map (apart _ (by decide))),
    orElse_of_mismatches (mismatches_heredoc (apart _ (by decide)))]

/-- Only a heredoc leaves a line feed behind it. -/
theorem overhang_of_notHeredoc {node : Node} (h : node.isHeredoc = false) :
    overhang layout [node] = [] := by
  simp [overhang, h]

/-- A string whose template sequences end is read back. -/
theorem string_reads {content : Text} (ends : content.sequencesEnd = true) :
    OperandReads layout (.string content) := by
  intro rest _ _
  have letters : Text.Stops isAlphabetic (content.quote ++ rest) :=
    (Text.stops_cons ..).mpr (by decide)
  have noMark : ∀ c ∈ (content.quote ++ rest).head?, c ∉ termMarks.take 4 := by
    rintro c head
    obtain rfl : '"' = c := by simpa [Text.quote] using head
    decide
  have takes : scalar (content.quote ++ rest) = .matched (.string content) rest :=
    orElse_of_matched (map_of_matched (quotedString_quote ends rest) Node.string) _
  rw [valueForm_string, operand_behind_brackets (mismatches_callStart letters) noMark,
    orElse_of_matched takes, overhang_of_notHeredoc rfl, List.nil_append]

/-- A number does not go on behind a literal. -/
theorem LiteralEnd.continuesNumber {rest : Text} (h : LiteralEnd rest) :
    Text.Stops continuesNumber rest := by
  intro c hc
  have stops := h.1 c hc
  simp only [isNameChar, Bool.or_eq_false_iff] at stops
  simp [Grammar.continuesNumber, stops]

/-- Nor does a name. -/
theorem LiteralEnd.isNameChar {rest : Text} (h : LiteralEnd rest) :
    Text.Stops isNameChar rest := by
  intro c hc
  have stops := h.1 c hc
  simp only [Bool.or_eq_false_iff] at stops
  exact stops.1

/-- Nor does the name of a call. -/
theorem LiteralEnd.isCallChar {rest : Text} (h : LiteralEnd rest) :
    Text.Stops isCallChar rest := by
  intro c hc
  have stops := h.1 c hc
  simp only [Grammar.isNameChar, Bool.or_eq_false_iff] at stops
  rw [isCallChar_eq, isPartChar]
  simp [stops]

/-- A number is read as a scalar and starts no other operand. -/
theorem number_operand {text rest : Text} (h : IsNumber text) (follows : LiteralEnd rest)
    (rules : Inner) : operand rules (text ++ rest) = .matched (.numberOrBool text) rest := by
  obtain ⟨c, more, shape, digit⟩ := h.starts
  -- A digit or a minus starts none of the operands that are tried before a number.
  have facts : isAlphabetic c = false ∧ c ∉ termMarks.take 4 ∧ c ≠ '"' := by
    simp only [Bool.or_eq_true, beq_iff_eq] at digit
    rcases digit with digit | rfl
    · refine ⟨isAlphabetic_of_isDigit digit, ?_, ?_⟩
      · intro mark
        exact absurd digit
          (by simpa using (by decide : ∀ c ∈ termMarks.take 4, Char.isDigit c = false) c mark)
      · rintro rfl
        exact absurd digit (by decide)
    · decide
  have letters : Text.Stops isAlphabetic (text ++ rest) := by simp [shape, facts]
  have noMark : ∀ d ∈ (text ++ rest).head?, d ∉ termMarks.take 4 := by
    rw [shape]
    rintro d head
    obtain rfl : c = d := by simpa using head
    exact facts.2.1
  have takes : scalar (text ++ rest) = .matched (.numberOrBool text) rest := by
    rw [scalar, orElse_of_mismatches (Mismatches.bind
      (mismatches_quotedString_iff.mpr (by simp [shape, facts])) _), numberOrBool]
    exact bind_of_matched (orElse_of_matched (number_append h follows.continuesNumber) _)
  rw [operand_behind_brackets (mismatches_callStart letters) noMark, orElse_of_matched takes]

/-- A boolean is read as a scalar where it is no name of a call. -/
theorem boolean_operand {text rest : Text} (h : IsBoolean text) (follows : LiteralEnd rest)
    (rules : Inner) : operand rules (text ++ rest) = .matched (.numberOrBool text) rest := by
  have letters := isAlphabetic_of_isBoolean h
  obtain ⟨c, more, shape, letter⟩ := h.starts
  have isAlphanumeric := isAlphanumeric_of_isAlphabetic letter
  have noDigit := startsNumber_of_isAlphabetic letter
  have apart (d : Char) (other : isAlphabetic d = false) : c ≠ d := by
    rintro rfl
    simp [other] at letter
  -- All of the word could be the name of a call, so it counts that no parenthesis follows it.
  have noCall : callStart.Mismatches (text ++ rest) := by
    refine mismatches_callStart_of_head ?_
    have all : ∀ d ∈ text, isCallChar d = true := fun d hd => by
      simp [isCallChar_eq, isPartChar, isAlphanumeric_of_isAlphabetic (letters d hd)]
    rw [Text.dropWhile_append_of_stops all follows.isCallChar]
    exact follows.2
  have noMark : ∀ d ∈ (text ++ rest).head?, d ∉ termMarks.take 4 := by
    rw [shape]
    rintro d head mark
    obtain rfl : c = d := by simpa using head
    exact apart c ((by decide : ∀ c ∈ termMarks.take 4, isAlphabetic c = false) c mark) rfl
  have takes : scalar (text ++ rest) = .matched (.numberOrBool text) rest := by
    have noQuote : (text ++ rest).head? ≠ some '"' := by
      simpa [shape] using apart '"' (by decide)
    rw [scalar, orElse_of_mismatches (Mismatches.bind (mismatches_quotedString_iff.mpr noQuote) _),
      numberOrBool]
    have literal : (number <|> boolean) (text ++ rest) = .matched text rest := by
      rw [orElse_of_mismatches (mismatches_number (by simp [shape, noDigit]))]
      exact boolean_append h follows.isNameChar
    exact bind_of_matched literal
  rw [operand_behind_brackets noCall noMark, orElse_of_matched takes]

/-- A number or boolean is read back. -/
theorem numberOrBool_reads {text : Text} (h : IsNumber text ∨ IsBoolean text) :
    OperandReads layout (.numberOrBool text) := by
  intro rest follows _
  rw [valueForm_numberOrBool, overhang_of_notHeredoc rfl, List.nil_append]
  rcases h with digits | word
  · exact number_operand digits follows inner
  · exact boolean_operand word follows inner

/-- A number does not go on behind a term. -/
theorem TermEnd.isNumberChar {rest : Text} (h : TermEnd rest) : Text.Stops isNumberChar rest :=
  h.stops (by decide)

/-- An unquoted text that starts no number and is no boolean is read back. -/
theorem unquoted_reads {text : Text} (h : IsUnquotedText text) (notNumber : number.Mismatches text)
    (boolean : boolean.Mismatches text ∨ IsBoolean text) (notBoolean : ¬ IsBoolean text) :
    OperandReads layout (.unquotedString text) := by
  intro rest follows _
  replace follows : TermEnd rest := follows
  obtain ⟨c, more, shape, isText⟩ := h.starts
  have apart (d : Char) (other : isTextChar d = false) : c ≠ d := by
    rintro rfl
    simp [other] at isText
  have noMark : ∀ d ∈ (text ++ rest).head?, d ∉ termMarks.take 4 := by
    rw [shape]
    rintro d head mark
    obtain rfl : c = d := by simpa using head
    exact apart c ((by decide : ∀ c ∈ termMarks.take 4, isTextChar c = false) c mark) rfl
  have noQuote : (text ++ rest).head? ≠ some '"' := by
    simpa [shape] using apart '"' (by decide)
  -- Numbers and booleans look ahead, so that there is none in the text alone says so for any text
  -- that ends a term.
  have noScalar : scalar.Mismatches (text ++ rest) :=
    mismatches_scalar noQuote (mismatches_number_append notNumber follows.isNumberChar)
      (mismatches_boolean_append (boolean.resolve_right notBoolean) follows.isNameChar)
  rw [valueForm_unquotedString, operand_behind_brackets
    (mismatches_callStart_unquoted h.startsPlain follows) noMark, orElse_of_mismatches noScalar,
    overhang_of_notHeredoc rfl, List.nil_append]
  exact map_of_matched (unquotedText_append h follows.isTextChar follows.noIndex) Node.unquotedString

/-! ### Heredocs and for expressions -/

/-- The compact form of a heredoc is the block form with its line break. -/
theorem source_compact (doc : Heredoc) :
    doc.source .compact = doc.source (.block 0) ++ ['\n'] := by
  simp [Heredoc.source]

/-- A heredoc is read back; its line break is left behind. -/
theorem heredoc_source {doc : Heredoc} (h : IsHeredoc doc) {rest : Text}
    (line : LineEnd layout (.heredoc doc) rest) :
    heredoc (doc.source layout ++ rest)
      = .matched doc (overhang layout [.heredoc doc] ++ rest) := by
  cases layout with
  | compact =>
    rw [source_compact, List.append_assoc]
    exact heredoc_append h 0 (closesLine_feed rest)
  | block level => exact heredoc_append h level (line.heredoc rfl rfl)

/-- A heredoc is read back. -/
theorem heredoc_reads {doc : Heredoc} (h : IsHeredoc doc) : OperandReads layout (.heredoc doc) := by
  intro rest _ line
  have head (d : Char) (other : '<' ≠ d) : (doc.source layout ++ rest).head? ≠ some d := by
    simpa [Heredoc.source] using other
  have letters : Text.Stops isAlphabetic (doc.source layout ++ rest) :=
    (Text.stops_cons ..).mpr (by decide)
  have takes := heredoc_source h line
  rw [valueForm_heredoc, operand,
    orElse_of_mismatches (mismatches_functionCall (mismatches_callStart letters)),
    orElse_of_mismatches (mismatches_parenthesized (head _ (by decide))),
    orElse_of_mismatches (mismatches_forObject (head _ (by decide))),
    orElse_of_mismatches (mismatches_forList (head _ (by decide))),
    orElse_of_mismatches (mismatches_list (head _ (by decide))),
    orElse_of_mismatches (mismatches_map (head _ (by decide)))]
  exact orElse_of_matched (map_of_matched takes Node.heredoc) _

/-- A for expression is read back. -/
theorem loop_reads {loop : ForLoop} (h : IsForLoop loop)
    (brackets : (loop.opening, loop.closing) ∈ loopBrackets) :
    OperandReads layout (.forLoop loop) := by
  intro rest _ _
  have takes := forLoop_source h rest
  have head : (loop.source ++ rest).head? = some loop.opening := rfl
  have opens : loop.opening ∈ ['{', '['] := by
    have : ∀ pair ∈ loopBrackets, pair.1 ∈ ['{', '['] := by decide
    exact this _ brackets
  have apart : isAlphabetic loop.opening = false ∧ loop.opening ≠ '(' :=
    (by decide : ∀ c ∈ ['{', '['], isAlphabetic c = false ∧ c ≠ '(') _ opens
  have letters : Text.Stops isAlphabetic (loop.source ++ rest) :=
    (Text.stops_cons ..).mpr apart.1
  rw [valueForm_forLoop, overhang_of_notHeredoc rfl, List.nil_append, operand,
    orElse_of_mismatches (mismatches_functionCall (mismatches_callStart letters)),
    orElse_of_mismatches (mismatches_parenthesized (by simp [head, apart]))]
  simp only [loopBrackets, List.mem_cons, Prod.mk.injEq, List.not_mem_nil, or_false] at brackets
  -- The loop in braces is tried before the one in square brackets.
  rcases brackets with ⟨opening, closing⟩ | ⟨opening, closing⟩ <;> rw [opening, closing] at takes
  · exact orElse_of_matched (map_of_matched takes Node.forLoop) _
  · rw [orElse_of_mismatches (mismatches_forObject (by simp [head, opening]))]
    exact orElse_of_matched (map_of_matched takes Node.forLoop) _

end HclSyntax.Grammar
