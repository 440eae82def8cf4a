import HclSyntax.Proofs.Grammar.Follow
import HclSyntax.Proofs.Grammar.Shape
import HclSyntax.Proofs.Node.Form

/-!
# `HclSyntax.Proofs.Grammar.Start`: how printed nodes start

The first character of a printed node decides much: that there is no white space to skip in front of
it, that it is no comma, and which alternatives of the grammar cannot apply. `startsTerm` is the class
of the characters a term starts with and `startsItem` adds the markers of comments.

The module also says where nothing starts: no value in front of a closing bracket
(`mismatches_element`), and no declaration there either (`mismatches_declaration`).
-/

set_option autoImplicit false

namespace HclSyntax.Grammar

open Rule Node

/-! ### Characters -/

/-- The characters other than those of unquoted text that a term starts with. -/
def termMarks : List Char :=
  ['(', '{', '[', '<', '"', '-', '!']

/-- The characters a term starts with. -/
def startsTerm (c : Char) : Bool :=
  isTextChar c || termMarks.contains c

/-- The characters an element starts with. -/
def startsItem (c : Char) : Bool :=
  startsTerm c || c == '#' || c == '/'

/-- Unquoted text is made of everything but white space, the delimiters and the mark of a comment.
-/
theorem isTextChar_iff {c : Char} :
    isTextChar c = true ↔ c ∉ '#' :: delimiters ∧ isWhitespace c = false := by
  have listed : isDelimiter c = false ↔ c ∉ delimiters := by
    rw [← Bool.not_eq_true]
    exact not_congr List.contains_iff_mem
  simp only [isTextChar, Bool.and_eq_true, Bool.not_eq_true', listed, bne_iff_ne, ne_eq,
    List.mem_cons, not_or]
  tauto

/-- Unquoted text is a term, so its characters start terms. -/
theorem startsTerm_of_isTextChar {c : Char} (h : isTextChar c = true) : startsTerm c = true := by
  simp [startsTerm, h]

/-- What may stand in a bare name may start a term. -/
theorem startsTerm_of_isNameChar {c : Char} (h : isNameChar c = true) : startsTerm c = true := by
  simp only [isNameChar, Bool.or_eq_true, beq_iff_eq] at h
  rcases h with ((letter | rfl) | rfl) | rfl
  · exact startsTerm_of_isTextChar (isTextChar_of_isAlphanumeric letter)
  all_goals decide

/-- What starts a term starts an element of a list. -/
theorem startsItem_of_startsTerm {c : Char} (h : startsTerm c = true) : startsItem c = true := by
  simp [startsItem, h]

/-- No term starts with one of the other delimiters. -/
theorem startsTerm_apart {c d : Char} (h : startsTerm c = true) (delimiter : d ∈ '#' :: delimiters)
    (noMark : d ∉ termMarks) : c ≠ d := by
  rintro rfl
  simp only [startsTerm, Bool.or_eq_true, isTextChar_iff, List.contains_iff_mem] at h
  rcases h with ⟨apart, -⟩ | mark
  · exact apart delimiter
  · exact noMark mark

/-- No element starts with white space, so skipping white space in front of one takes nothing of it.
-/
theorem isWhitespace_of_startsItem {c : Char} (h : startsItem c = true) :
    isWhitespace c = false := by
  simp only [startsItem, startsTerm, Bool.or_eq_true, isTextChar_iff, List.contains_iff_mem,
    beq_iff_eq] at h
  rcases h with ((⟨-, notSpace⟩ | mark) | rfl) | rfl
  · exact notSpace
  · exact (by decide : ∀ c ∈ termMarks, isWhitespace c = false) c mark
  all_goals decide

/-- An item does not start with a separator or a closing bracket. -/
theorem startsItem_apart {c d : Char} (h : startsItem c = true)
    (listed : d ∈ [',', ';', ')', ']', '}', '=', ':', '\\']) : c ≠ d := by
  simp only [startsItem, Bool.or_eq_true, beq_iff_eq] at h
  rcases h with (term | rfl) | rfl
  · have other : ∀ d ∈ [',', ';', ')', ']', '}', '=', ':', '\\'],
        d ∈ '#' :: delimiters ∧ d ∉ termMarks := by decide
    exact startsTerm_apart term (other d listed).1 (other d listed).2
  · rintro rfl
    exact absurd listed (by decide)
  · rintro rfl
    exact absurd listed (by decide)

/-! ### Printed nodes -/

/-- The text starts with a character of the class. -/
def StartsWith (accepts : Char → Bool) (text : Text) : Prop :=
  ∃ c rest, text = c :: rest ∧ accepts c = true

/-- A start stays the start when text is put behind it. -/
theorem StartsWith.append {accepts : Char → Bool} {text : Text} (h : StartsWith accepts text)
    (more : Text) : StartsWith accepts (text ++ more) := by
  obtain ⟨c, rest, rfl, accepted⟩ := h
  exact ⟨c, rest ++ more, rfl, accepted⟩

/-- A start in one class is a start in every wider one. -/
theorem StartsWith.mono {accepts weaker : Char → Bool} {text : Text} (h : StartsWith accepts text)
    (weaken : ∀ c, accepts c = true → weaker c = true) : StartsWith weaker text := by
  obtain ⟨c, rest, rfl, accepted⟩ := h
  exact ⟨c, rest, rfl, weaken c accepted⟩

/-- A run of other characters ends at once in front of such a start. -/
theorem StartsWith.stops {accepts other : Char → Bool} {text : Text} (h : StartsWith accepts text)
    (apart : ∀ c, accepts c = true → other c = false) (rest : Text) :
    Text.Stops other (text ++ rest) := by
  obtain ⟨c, tail, rfl, accepted⟩ := h
  exact (Text.stops_cons ..).mpr (apart c accepted)

/-- Where an item starts there is no white space to skip. -/
theorem StartsWith.trimStart {text : Text} (h : StartsWith startsItem text) (rest : Text) :
    Text.trimStart (text ++ rest) = text ++ rest :=
  Text.trimStart_of_stops (h.stops (fun _ => isWhitespace_of_startsItem) rest)

variable {layout : Layout}

/-- A digit may stand in unquoted text, so a number has to be tried before it. -/
theorem isTextChar_of_isDigit {c : Char} (h : c.isDigit = true) : isTextChar c = true :=
  isTextChar_of_isAlphanumeric (isAlphanumeric_of_isDigit h)

/-- The name of a call starts with a letter. -/
theorem IsCallName.starts {name : Text} (h : IsCallName name) : StartsWith isAlphabetic name := by
  obtain ⟨text, rest, found⟩ := h
  obtain ⟨-, ⟨first, others, rfl, letter⟩, -⟩ := functionName_shape found
  exact ⟨first, others, rfl, letter⟩

/-- Unquoted text starts with one of its own characters. -/
theorem IsUnquotedText.starts {text : Text} (h : IsUnquotedText text) :
    StartsWith isTextChar text := by
  obtain ⟨source, rest, found⟩ := h
  obtain ⟨-, ⟨first, tail, rfl, plain, -⟩, -⟩ := unquotedText_shape found
  exact ⟨first, tail, rfl, plain⟩

/-- A number starts with a digit or its sign. -/
theorem IsNumber.starts {text : Text} (h : IsNumber text) :
    StartsWith (fun c => c.isDigit || c == '-') text := by
  obtain ⟨sign, magnitude, rfl, signs, digits⟩ := isNumber_iff.mp h
  obtain ⟨c, rest, rfl, digit⟩ := head_of_magnitude digits
  cases sign with
  | none => exact ⟨c, rest, rfl, by simp [digit]⟩
  | some s =>
    obtain rfl := signs s rfl
    exact ⟨'-', c :: rest, rfl, by simp⟩

/-- A boolean starts with a letter. -/
theorem IsBoolean.starts {text : Text} (h : IsBoolean text) : StartsWith isAlphabetic text := by
  cases text with
  | nil => exact absurd (isBoolean_iff.mp h) (by decide)
  | cons c rest => exact ⟨c, rest, rfl, isAlphabetic_of_isBoolean h c (by simp)⟩

/-- A list starts with its bracket, and a map or body with its brace. -/
theorem listForm_starts (elements : List (Node × Text)) :
    ∃ rest, listForm layout elements = '[' :: rest := by
  cases layout <;> unfold listForm <;> split <;> exact ⟨_, rfl⟩

/-- The body of a block starts with its brace, even when it is empty. -/
theorem bodyForm_starts (declarations : List (Node × Text)) :
    ∃ rest, bodyForm layout declarations = '{' :: rest := by
  cases layout <;> unfold bodyForm <;> split <;> exact ⟨_, rfl⟩

/-- A term starts with a character of unquoted text or with a mark of its own. -/
theorem IsOperand.starts {node : Node} (h : IsOperand node) :
    StartsWith startsTerm (valueForm layout node) := by
  have letters (c : Char) (letter : isAlphabetic c = true) : startsTerm c = true :=
    startsTerm_of_isTextChar (isTextChar_of_isAlphanumeric (isAlphanumeric_of_isAlphabetic letter))
  cases h with
  | call isName => exact (isName.starts.mono letters).append _
  | group =>
    rw [valueForm_function, argumentsForm]
    split <;> exact ⟨'(', _, rfl, by decide⟩
  | @loop loop _ brackets =>
    refine ⟨loop.opening, _, rfl, ?_⟩
    exact (by decide : ∀ pair ∈ loopBrackets, startsTerm pair.1 = true) _ brackets
  | list =>
    exact (listForm_starts _).elim fun rest shape => ⟨'[', rest, shape, by decide⟩
  | map =>
    exact (bodyForm_starts _).elim fun rest shape => ⟨'{', rest, shape, by decide⟩
  | heredoc => exact ⟨'<', _, rfl, by decide⟩
  | string => exact ⟨'"', _, rfl, by decide⟩
  | numberOrBool literal =>
    rcases literal with digits | word
    · refine digits.starts.mono fun c h => ?_
      simp only [Bool.or_eq_true, beq_iff_eq] at h
      rcases h with digit | rfl
      · exact startsTerm_of_isTextChar (isTextChar_of_isDigit digit)
      · decide
    · exact word.starts.mono letters
  | unquoted plain => exact plain.starts.mono fun _ => startsTerm_of_isTextChar

/-- A term with its signs starts like a term. -/
theorem IsUnary.starts {terms : List Node} (h : IsUnary terms) :
    StartsWith startsTerm (termsForm layout terms) := by
  cases h with
  | bare operand =>
    rw [termsForm_singleton]
    exact operand.starts
  | accessed operand => exact operand.starts.append _
  | signed isSign => exact ⟨_, _, rfl, by rcases isSign with rfl | rfl <;> decide⟩

/-- An expression starts like its first term. -/
theorem AreTerms.starts {multiline : Bool} {terms : List Node} (h : AreTerms multiline terms) :
    StartsWith startsTerm (termsForm layout terms) := by
  cases h with
  | one unary => exact unary.starts
  | more first =>
    cases first with
    | bare operand => exact operand.starts.append _
    | accessed operand => exact operand.starts.append _
    | signed isSign => exact ⟨_, _, rfl, by rcases isSign with rfl | rfl <;> decide⟩

/-! ### Terms as values -/

/-- A value is printed as the terms it was made of, whether it is kept as one term or as an
expression. -/
theorem valueForm_ofTerms (terms : List Node) :
    valueForm layout (ofTerms terms) = termsForm layout terms := by
  unfold ofTerms
  split
  · exact (termsForm_singleton _).symm
  · rfl

/-- An operand is no symbol, no accessor and no expression. -/
theorem IsOperand.apart {node : Node} (h : IsOperand node) :
    node.isSymbol = false ∧ node.isAccessor = false ∧ node.terms = [node] := by
  cases h with
  | @unquoted text plain =>
    obtain ⟨source, rest, found⟩ := plain
    obtain ⟨-, ⟨first, tail, rfl, isText, noPoint, -⟩, -⟩ := unquotedText_shape found
    refine ⟨rfl, ?_, rfl⟩
    unfold isAccessor
    split
    -- Unquoted text starts neither with a point nor with a bracket, as accessors do.
    · next same => exact absurd (by cases same; rfl) noPoint
    · next same =>
      cases same
      exact absurd isText (by decide)
    · rfl
  | _ => exact ⟨rfl, rfl, rfl⟩

/-- A term is no comment. -/
theorem IsOperand.isComment {node : Node} (h : IsOperand node) : node.isComment = false := by
  cases h <;> rfl

/-- Signs alone are no term. -/
theorem IsUnary.ne_nil {terms : List Node} (h : IsUnary terms) : terms ≠ [] := by
  cases h <;> simp

/-- An expression has a term. -/
theorem AreTerms.ne_nil {multiline : Bool} {terms : List Node} (h : AreTerms multiline terms) :
    terms ≠ [] := by
  cases h with
  | one unary => exact unary.ne_nil
  | more => simp

/-- A term does not end with a symbol. -/
theorem IsUnary.last {terms : List Node} (h : IsUnary terms) :
    ∀ last ∈ terms.getLast?, last.isSymbol = false := by
  induction terms with
  | nil => simp
  | cons term rest ih =>
    cases h with
    | bare operand => simpa using operand.apart.1
    | accessed => simp [isSymbol]
    | signed isSign unary =>
      obtain ⟨next, rest, rfl⟩ := List.exists_cons_of_ne_nil unary.ne_nil
      rw [List.getLast?_cons_cons]
      exact ih unary

/-- An expression does not start with an accessor. -/
theorem IsUnary.head {terms : List Node} (h : IsUnary terms) :
    ∀ first ∈ terms.head?, first.isAccessor = false := by
  cases h with
  | bare operand => simpa using operand.apart.2.1
  | accessed operand => simpa using operand.apart.2.1
  | signed => simp [isAccessor_mathSymbol]

/-- An expression does not start with an accessor, so the printer puts its gap in front of it. -/
theorem AreTerms.head {multiline : Bool} {terms : List Node} (h : AreTerms multiline terms) :
    ∀ first ∈ terms.head?, first.isAccessor = false := by
  cases h with
  | one unary => exact unary.head
  | more unary =>
    obtain ⟨term, front, rfl⟩ := List.exists_cons_of_ne_nil unary.ne_nil
    simpa using unary.head

/-- A single term is an operand. -/
theorem AreTerms.operand {multiline : Bool} {node : Node} (h : AreTerms multiline [node]) :
    IsOperand node := by
  -- `cases` needs the list of terms to be a variable.
  generalize same : [node] = terms at h
  cases h with
  | one unary =>
    cases unary with
    | bare operand =>
      cases same
      exact operand
    | accessed => cases same
    | signed _ unary =>
      cases same
      exact absurd rfl unary.ne_nil
  | @more _ _ _ _ first =>
    have length := congrArg List.length same
    have positive := List.length_pos_iff.mpr first.ne_nil
    simp only [List.length_append, List.length_cons, List.length_nil] at length
    omega

/-- The terms of a value are the ones it was made of. -/
theorem AreTerms.terms_ofTerms {multiline : Bool} {terms : List Node}
    (h : AreTerms multiline terms) : (ofTerms terms).terms = terms := by
  unfold ofTerms
  split
  · exact h.operand.apart.2.2
  · rfl

/-- A property made of terms has a value with these terms and is of no type. -/
theorem AreTerms.propertyOfTerms_eq {multiline : Bool} {terms : List Node}
    (h : AreTerms multiline terms) (name : Name) :
    ∃ kind value, propertyOfTerms name terms = .property kind name value ∧ kind ≠ .type
      ∧ value.terms = terms ∧ ∀ layout, valueForm layout value = termsForm layout terms := by
  have single {node : Node} (only : terms = [node]) :
      node.terms = terms ∧ ∀ layout, valueForm layout node = termsForm layout terms := by
    subst only
    exact ⟨h.operand.apart.2.2, fun layout => (termsForm_singleton node).symm⟩
  unfold propertyOfTerms
  split
  case h_8 => exact ⟨.unquotedExpression, _, rfl, by decide, rfl, fun _ => rfl⟩
  all_goals exact ⟨_, _, rfl, by decide, single rfl⟩

/-! ### Elements and declarations -/

/-- A comment starts with one of its marks, in either layout. -/
theorem IsComment.starts {node : Node} (h : IsComment node) :
    StartsWith (fun c => c == '#' || c == '/') (valueForm layout node) := by
  cases node with
  | comment style text =>
    cases layout with
    | compact => exact ⟨'/', _, rfl, by decide⟩
    | block =>
      cases style
      · exact ⟨'#', _, rfl, by decide⟩
      · exact ⟨'/', _, rfl, by decide⟩
  | multilineComment => exact ⟨'/', _, rfl, by decide⟩
  | _ => exact absurd h id

/-- The two kinds of comments are what the printer takes for comments. -/
theorem IsComment.isComment {node : Node} (h : IsComment node) : node.isComment = true := by
  cases node with
  | comment | multilineComment => rfl
  | _ => exact absurd h id

/-- There is nothing inside a comment. -/
theorem IsComment.inside {node : Node} (h : IsComment node) : node.inside = [] := by
  cases node with
  | comment | multilineComment => rfl
  | _ => exact absurd h id

/-- Nothing but the margin of its line is printed around a comment. -/
theorem IsComment.bare {node : Node} (h : IsComment node) :
    node.lead = [] ∧ declarationOverhang layout node = [] ∧ node.margin layout = layout.margin := by
  cases node with
  | comment | multilineComment => exact ⟨rfl, rfl, rfl⟩
  | _ => exact absurd h id

/-- The marks of comments start elements of a list. -/
theorem startsItem_of_comment {c : Char} (h : (c == '#' || c == '/') = true) :
    startsItem c = true := by
  rw [startsItem, Bool.or_assoc, h, Bool.or_true]

/-- An element of a list is printed with a visible start. -/
theorem IsElement.starts {node : Node} (h : IsElement node) :
    StartsWith startsItem (valueForm layout node) := by
  cases h with
  | comment comment => exact comment.starts.mono fun _ => startsItem_of_comment
  | value terms =>
    rw [valueForm_ofTerms]
    exact terms.starts.mono fun _ => startsItem_of_startsTerm

/-- A name starts like one, bare or quoted. -/
theorem IsName.starts {name : Name} (h : IsName name) : StartsWith startsName name.source := by
  unfold Name.source
  split
  · exact ⟨'"', _, rfl, by decide⟩
  · next bare =>
    have identifier := h (by simpa using bare)
    generalize name.text = text at identifier ⊢
    cases identifier with
    | bare nonempty all =>
      obtain ⟨c, rest, same⟩ := List.exists_cons_of_ne_nil nonempty
      exact ⟨c, rest, same, by simp [startsName, all c (by simp [same])]⟩
    | parenthesized => exact ⟨'(', _, rfl, by decide⟩

/-- The characters a declaration starts with. -/
def startsDeclaration (c : Char) : Bool :=
  startsName c || c == '#' || c == '/'

/-- What starts a name starts a declaration. -/
theorem startsDeclaration_of_startsName {c : Char} (h : startsName c = true) :
    startsDeclaration c = true := by
  simp [startsDeclaration, h]

/-- What starts a declaration could start an element as well, so neither starts with white space. -/
theorem startsItem_of_startsDeclaration {c : Char} (h : startsDeclaration c = true) :
    startsItem c = true := by
  simp only [startsDeclaration, startsName, Bool.or_eq_true, beq_iff_eq] at h
  rcases h with (((nameChar | rfl) | rfl) | rfl) | rfl
  · exact startsItem_of_startsTerm (startsTerm_of_isNameChar nameChar)
  all_goals decide

/-- A block starts like its name, or with the word `dynamic`. -/
theorem IsHeader.starts {header : BlockHeader} (h : IsHeader header) :
    StartsWith startsName header.source := by
  unfold BlockHeader.source
  split
  · exact ⟨'d', _, rfl, by decide⟩
  · exact ((h.name.starts.append _).append _)

/-- A block or property starts with a name. -/
theorem IsDeclaration.starts {node : Node} (h : IsDeclaration node) :
    StartsWith startsDeclaration (node.lead ++ valueForm layout node) := by
  cases h with
  | comment comment =>
    rw [(@IsComment.bare layout node comment).1]
    refine comment.starts.mono fun c h => ?_
    rw [startsDeclaration, Bool.or_assoc, h, Bool.or_true]
  | block isHeader =>
    exact ((isHeader.starts.append _).append _).mono fun _ => startsDeclaration_of_startsName
  | property isName terms =>
    obtain ⟨kind, value, shape, -⟩ := terms.propertyOfTerms_eq _
    rw [shape]
    exact ((isName.starts.append _).append _).mono fun _ => startsDeclaration_of_startsName
  | typed isName =>
    exact ((isName.starts.append _).append _).mono fun _ => startsDeclaration_of_startsName

/-! ### Where nothing starts -/

/-- Where no letter stands there is no name of a call. -/
theorem mismatches_functionName {text : Text} (stops : Text.Stops isAlphabetic text) :
    functionName.Mismatches text :=
  Mismatches.bind (Mismatches.bind (mismatches_charWhere_iff.mpr stops) _) _

/-- Where no letter stands no call starts. -/
theorem mismatches_callStart {text : Text} (stops : Text.Stops isAlphabetic text) :
    callStart.Mismatches text :=
  Mismatches.bind (mismatches_functionName stops) _

/-- A text starts with a boolean only if it starts with a letter. -/
theorem mismatches_boolean {text : Text} (stops : Text.Stops isAlphabetic text) :
    boolean.Mismatches text := by
  refine mismatches_boolean_iff.mpr fun found rest same word _ => ?_
  obtain ⟨c, more, rfl, letter⟩ := word.starts
  rw [same, List.cons_append, Text.stops_cons] at stops
  simp [letter] at stops

/-- The literals without quotes are numbers and booleans and nothing else. -/
theorem mismatches_numberOrBool {text : Text} (notNumber : number.Mismatches text)
    (notBoolean : boolean.Mismatches text) : numberOrBool.Mismatches text :=
  Mismatches.bind (mismatches_orElse_iff.mpr ⟨notNumber, notBoolean⟩) _

/-- A scalar is a string, a number or a boolean and nothing else. -/
theorem mismatches_scalar {text : Text} (notQuote : text.head? ≠ some '"')
    (notNumber : number.Mismatches text) (notBoolean : boolean.Mismatches text) :
    scalar.Mismatches text :=
  mismatches_orElse_iff.mpr ⟨Mismatches.bind (mismatches_quotedString_iff.mpr notQuote) _,
    mismatches_numberOrBool notNumber notBoolean⟩

section Bracketed

variable {inner : Inner} {c : Char} {text : Text}

/-- Without its start there is no call. -/
theorem mismatches_functionCall (h : callStart.Mismatches text) :
    (functionCall inner).Mismatches text :=
  h.bind _

/-- Without its bracket there is no expression in parentheses. -/
theorem mismatches_parenthesized (h : text.head? ≠ some '(') :
    (parenthesized inner).Mismatches text :=
  Mismatches.bind (mismatches_char_iff.mpr h) _

/-- Without its brace there is no for expression in braces. -/
theorem mismatches_forObject (h : text.head? ≠ some '{') :
    (do return .forLoop (← forObject) : Rule Node).Mismatches text :=
  Mismatches.bind (Mismatches.bind (mismatches_char_iff.mpr h) _) _

/-- Without its bracket there is no for expression in square brackets. -/
theorem mismatches_forList (h : text.head? ≠ some '[') :
    (do return .forLoop (← forList) : Rule Node).Mismatches text :=
  Mismatches.bind (Mismatches.bind (mismatches_char_iff.mpr h) _) _

/-- Without its bracket there is no list. -/
theorem mismatches_list (h : text.head? ≠ some '[') : (list inner).Mismatches text :=
  Mismatches.bind (mismatches_char_iff.mpr h) _

/-- Without its brace there is no map. -/
theorem mismatches_map (h : text.head? ≠ some '{') : (map inner).Mismatches text :=
  Mismatches.bind (mismatches_char_iff.mpr h) _

/-- Without its angle brackets there is no heredoc. -/
theorem mismatches_heredoc (h : text.head? ≠ some '<') :
    (do return .heredoc (← heredoc) : Rule Node).Mismatches text := by
  refine Mismatches.bind (Mismatches.bind (Mismatches.bind (mismatches_word_iff.mpr ?_) _) _) _
  rintro ⟨rest, rfl⟩
  exact h rfl

/-- Without one of its first characters there is no unquoted text. -/
theorem mismatches_unquotedText (notText : (isTextChar c && c != '.' && c != '*') = false) :
    (do return .unquotedString (← unquotedText) : Rule Node).Mismatches (c :: text) := by
  have noStart : (charWhere fun c => isTextChar c && c != '.' && c != '*').Mismatches (c :: text) :=
    mismatches_charWhere_iff.mpr ((Text.stops_cons ..).mpr notText)
  exact Mismatches.bind (Mismatches.bind noStart _) _

/-- No operand starts with a character that starts no text, unless it is an opening bracket, a quote
or the start of a heredoc or number. -/
theorem mismatches_operand_of (notText : (isTextChar c && c != '.' && c != '*') = false)
    (notLetter : isAlphabetic c = false) (notMark : c ∉ ['(', '{', '[', '"'])
    (noHeredoc : (do return .heredoc (← heredoc) : Rule Node).Mismatches (c :: text))
    (notNumber : number.Mismatches (c :: text)) : (operand inner).Mismatches (c :: text) := by
  have letters : Text.Stops isAlphabetic (c :: text) := (Text.stops_cons ..).mpr notLetter
  have apart (d : Char) (listed : d ∈ ['(', '{', '[', '"']) : (c :: text).head? ≠ some d := by
    rintro head
    obtain rfl : c = d := by simpa using head
    exact notMark listed
  -- Each alternative needs another first character.
  simp only [operand, mismatches_orElse_iff]
  exact ⟨mismatches_functionCall (mismatches_callStart letters),
    mismatches_parenthesized (apart _ (by decide)), mismatches_forObject (apart _ (by decide)),
    mismatches_forList (apart _ (by decide)), mismatches_list (apart _ (by decide)),
    mismatches_map (apart _ (by decide)), noHeredoc,
    mismatches_scalar (apart _ (by decide)) notNumber (mismatches_boolean letters),
    mismatches_unquotedText notText⟩

/-- No operand starts with a delimiter other than an opening bracket or quote. -/
theorem mismatches_operand (notText : isTextChar c = false) (notMark : c ∉ termMarks.take 5)
    (notNumber : number.Mismatches (c :: text)) : (operand inner).Mismatches (c :: text) := by
  have notLetter : isAlphabetic c = false := by
    rw [← Bool.not_eq_true]
    intro letter
    simp [isTextChar_of_isAlphanumeric (isAlphanumeric_of_isAlphabetic letter)] at notText
  have marks : ∀ d ∈ ['(', '{', '[', '"'], d ∈ termMarks.take 5 := by decide
  have notAngle : (c :: text).head? ≠ some '<' := by
    rintro head
    obtain rfl : c = '<' := by simpa using head
    exact notMark (by decide)
  exact mismatches_operand_of (by simp [notText]) notLetter (fun listed => notMark (marks c listed))
    (mismatches_heredoc notAngle) notNumber

/-- Where no term starts, one with a sign may. -/
theorem mismatches_unaryOperand_of (noTerm : (operand inner).Mismatches text)
    (noSign : (signedOperand inner).Mismatches text) : (unaryOperand inner).Mismatches text := by
  obtain ⟨place, gaveUp⟩ := mismatches_orElse_iff.mpr ⟨noTerm.bind _, noSign⟩
  exact ⟨place, (unaryOperand_eq inner text).trans gaveUp⟩

/-- Without a sign there is no signed term. -/
theorem mismatches_signedOperand (noSign : ∀ c ∈ text.head?, c ∉ ['!', '-']) :
    (signedOperand inner).Mismatches text :=
  Mismatches.bind (mismatches_oneOf_iff.mpr noSign) _

/-- At a character that starts no form of term, and no number, there is none. -/
theorem mismatches_unaryOperand (notText : isTextChar c = false) (notMark : c ∉ termMarks)
    (notNumber : number.Mismatches (c :: text)) : (unaryOperand inner).Mismatches (c :: text) := by
  have notFirst : c ∉ termMarks.take 5 := fun listed => notMark (List.mem_of_mem_take listed)
  have notSign : ∀ d ∈ (c :: text).head?, d ∉ ['!', '-'] := by
    rintro d head sign
    obtain rfl : c = d := by simpa using head
    exact notMark ((by decide : ∀ c ∈ ['!', '-'], c ∈ termMarks) c sign)
  exact mismatches_unaryOperand_of (mismatches_operand notText notFirst notNumber)
    (mismatches_signedOperand notSign)

end Bracketed

/-- No element starts with a closing bracket. -/
theorem mismatches_element {c : Char} (listed : c ∈ [')', ']', '}']) (text : Text) :
    (comment <|> inner.value).Mismatches (c :: text) := by
  have apart : ∀ c ∈ [')', ']', '}'], isTextChar c = false ∧ c ∉ termMarks ∧ c ≠ '#' ∧ c ≠ '/'
      ∧ (c.isDigit || c == '-') = false := by decide
  obtain ⟨notText, notMark, notHash, notSlash, notDigit⟩ := apart c listed
  have term : (valueOver inner).Mismatches (c :: text) :=
    Mismatches.bind (Mismatches.bind (mismatches_unaryOperand notText notMark
      (mismatches_number ((Text.stops_cons ..).mpr notDigit))) _) _
  refine mismatches_orElse_iff.mpr ⟨mismatches_comment (by simpa) (by simpa), ?_⟩
  obtain ⟨rest, gaveUp⟩ := term
  exact ⟨rest, (value_eq _).trans gaveUp⟩

/-! ### Where no declaration starts -/

/-- A keyword is not found where its word does not stand. -/
theorem mismatches_keyword {expected text : Text} (h : ¬ expected <+: text) :
    (keyword expected).Mismatches text :=
  Mismatches.bind (mismatches_word_iff.mpr h) _

/-- Where no name starts no block does. -/
theorem mismatches_blockName {text : Text} (h : Text.Stops startsName text) :
    blockName.Mismatches text := by
  refine mismatches_orElse_iff.mpr ⟨Mismatches.bind (mismatches_keyword ?_) _,
    Mismatches.bind (mismatches_propertyName h) _⟩
  rintro ⟨rest, rfl⟩
  exact absurd (h 'd' rfl) (by decide)

/-- Without its brace there is no body. White space may stand in front of it. -/
theorem mismatches_blockBody {text : Text} (h : text.trimStart.head? ≠ some '{') :
    (blockBody inner).Mismatches text :=
  Mismatches.behind (whitespace_apply text) ((mismatches_char_iff.mpr h).bind _)

/-- No declaration starts where neither a name nor a comment does. -/
theorem mismatches_declaration_of {text : Text} (noName : Text.Stops startsName text)
    (noComment : comment.Mismatches text) (rules : Inner) : (declaration rules).Mismatches text := by
  have block := mismatches_blockName noName
  have property := mismatches_propertyName noName
  have function : (keyword "function".toList).Mismatches text := by
    refine mismatches_keyword ?_
    rintro ⟨rest, rfl⟩
    exact absurd (noName 'f' rfl) (by decide)
  simp only [declaration, mismatches_orElse_iff]
  exact ⟨block.bind _, property.bind _, property.bind _, property.bind _, function.bind _,
    block.bind _, block.bind _, property.bind _, property.bind _, property.bind _,
    property.bind _, property.bind _, noComment, property.bind _⟩

/-- At a character that starts no form of declaration there is none. -/
theorem mismatches_declaration {text : Text} (h : Text.Stops startsDeclaration text)
    (rules : Inner) : (declaration rules).Mismatches text :=
  mismatches_declaration_of (h.mono fun _ => startsDeclaration_of_startsName)
    (mismatches_comment (h.head_ne (by decide)) (h.head_ne (by decide))) rules

end HclSyntax.Grammar
