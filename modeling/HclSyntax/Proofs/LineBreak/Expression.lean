import HclSyntax.Proofs.LineBreak.Late
import HclSyntax.Proofs.LineBreak.Stuck

/-!
# `HclSyntax.Proofs.LineBreak.Expression`: values and a line feed at the end of the text

Where the elements of a bracket cannot be read to its end, they may be a fault behind a line feed
only. The term that starts with that bracket is then stranded, or stuck behind a name that was taken
for a text (`wavers_operand`). Both are passed on by signs, accessors and operators, so that a value
falters only on a stranded text, or where it leaves a stuck one (`wavers_valueOver`).
-/

set_option autoImplicit false

set_option synthInstance.maxSize 100000

namespace HclSyntax

open Grammar

/-- A line feed behind a closing parenthesis is not in front of it. -/
theorem Text.Broken.fenced {text broken : Text} (h : Broken text broken) (fenced : text.Fenced) :
    broken.Fenced := by
  cases h with
  | skipped => cases fenced
  | feed =>
    induction fenced with
    | fence behind => exact .fence _
    | cons nameChar _ ih => exact .cons nameChar ih

/-- A name is in front of the parenthesis that closes it. -/
theorem Text.fenced_append {name : Text} (all : ∀ c ∈ name, isNameChar c = true) (behind : Text) :
    Fenced (name ++ ')' :: behind) := by
  induction name with
  | nil => exact .fence behind
  | cons c name ih =>
    exact .cons (all c List.mem_cons_self) (ih fun d hd => all d (List.mem_cons_of_mem _ hd))

namespace Grammar

open Rule

variable {bound : Nat}

/-- The text behind the white space is stuck. -/
def Halted (rest : Text) : Prop :=
  Stuck rest.trimStart

/-- Something is left that no body ends at. -/
def Leftover (rest : Text) : Prop :=
  ∃ c tail, rest.trimStart = c :: tail ∧ c ≠ '}'

/-! ### Elements -/

/-- No element is read where an expression got stuck. -/
theorem refuses_elementItem {rest : Text} (h : Halted rest) : (elementItem inner).Refuses rest :=
  (Mismatches.behind (whitespace_apply rest) (h.mismatches_element.bind _)).refuses

/-- Where an expression got stuck, no bracket closes. -/
theorem Halted.mismatches_closing {rest : Text} (h : Halted rest) {bracket : Char}
    (apart : bracket ∉ strandedStarts ++ bareSymbols) (construct : Construct) :
    (closing bracket construct).Mismatches rest := by
  obtain ⟨c, tail, start, listed⟩ := h.starts
  exact Grammar.mismatches_closing start (fun same : c = bracket => apart (same ▸ listed))
    construct

section Elements

variable (hvalue : Wavers Stranded Halted bound inner.value)

include hvalue

/-- An element falters where its value does. -/
theorem wavers_elementItem :
    Wavers (fun text => Stranded text.trimStart) Halted bound (elementItem inner) := by
  have element : Wavers Stranded Halted bound (comment <|> inner.value) :=
    hvalue.otherwise
  refine Wavers.spaced (element.bind (fun _ => Steady.weaken _) (fun _ => False.elim)
    fun {_ _ rest} _ stuck => ?_)
  -- No comma follows, and the element stays.
  have noComma : optional (whitespace >>= fun _ => char ',') rest = .matched none rest :=
    optional_of_stuck stuck (by decide)
  rw [bind_of_matched noComma]
  exact stuck

/-- Elements make a fault late only where they cannot be read, and not in front of a name and a
closing parenthesis. -/
theorem wavers_elements (bracket : Char) (construct : Construct)
    (apart : bracket ∉ strandedStarts ++ bareSymbols) :
    Wavers (fun text => (elements inner bracket construct).Mismatches text ∧ ¬ text.Fenced) Never bound
      (elements inner bracket construct) := by
  have items : Wavers Never Halted bound (many (elementItem inner)) :=
    ((wavers_elementItem hvalue).many fun _ => refuses_elementItem).mono (fun _ => id)
      fun _ h => h.elim id Stuck.stranded
  have all : Wavers (fun _ => True) Never bound (elements inner bracket construct) := by
    rw [elements_eq_many]
    refine (items.mono (fun _ => False.elim) fun _ => id).bind (fun _ => Steady.weaken _)
      (fun _ => False.elim) fun _ stuck => ?_
    exact ((stuck.mismatches_closing apart construct).bind _).refuses.falters trivial
  refine all.sharpen fun hbroken mismatch committed _ => ⟨mismatch, fun fenced => ?_⟩
  exact elements_of_fenced (hbroken.fenced fenced) bracket construct committed

end Elements

/-! ### Calls -/

/-- The name of a call starts with a part in front of which no term looks further: behind it stands
the parenthesis, or a colon that parts the name. -/
theorem callStart_part {text name rest : Text} (h : callStart text = .matched name rest) :
    ∃ part behind, text = part ++ behind ∧ IsNamePart part
      ∧ (behind.trimInline = '(' :: rest ∨ ∃ more, behind = ':' :: ':' :: more) := by
  simp only [callStart, functionName_eq, bind_matched_iff, functionNamePart_matched_iff,
    char_matched_iff, pure_matched_iff, inlineWhitespace_apply, Reply.matched.injEq] at h
  obtain ⟨_, _, ⟨part, behind, ⟨rfl, isPart, -⟩, others, after, more, -, rfl⟩, _, _, ⟨-, rfl⟩, _, _,
    ⟨opens, -⟩, -, rfl⟩ := h
  refine ⟨part, behind, rfl, isPart, ?_⟩
  rcases many_matched_iff.mp more with ⟨-, -, rfl⟩ | ⟨piece, _, _, found, -⟩
  · exact .inl opens
  · obtain ⟨_, tail, colons, -⟩ := bind_matched_iff.mp found
    obtain ⟨rfl, -⟩ := word_matched_iff.mp colons
    exact .inr ⟨tail, rfl⟩

/-- A name of a call is made of characters of texts. -/
theorem isTextChar_of_isPartChar {c : Char} (h : isPartChar c = true) : isTextChar c = true := by
  rcases Bool.or_eq_true_iff.mp h with letter | underscore
  · exact isTextChar_of_isAlphanumeric letter
  · rw [beq_iff_eq.mp underscore]
    decide

/-- A part of the name of a call is taken for a text. -/
theorem unquotedText_part {part behind : Text} (isPart : IsNamePart part)
    (stops : Text.Stops isTextChar behind) (noIndex : behind.head? ≠ some '[') :
    unquotedText (part ++ behind) = .matched part behind := by
  obtain ⟨first, others, rfl, letter, all⟩ := isPart
  have start : (isTextChar first && first != '.' && first != '*') = true := by
    have apart : ∀ c ∈ ['.', '*'], isAlphabetic c = false := by decide
    have ne {c : Char} (listed : c ∈ ['.', '*']) : first ≠ c := fun same => by
      rw [same, apart c listed] at letter
      cases letter
    simp [isTextChar_of_isAlphanumeric (isAlphanumeric_of_isAlphabetic letter), ne]
  have noPiece := mismatches_textPiece stops noIndex
  -- The other characters, if there are any, are one run.
  have pieces : ∃ pieces, many textPiece (others ++ behind) = .matched pieces behind
      ∧ pieces.flatten = others := by
    cases others with
    | nil => exact ⟨[], many_of_mismatches noPiece, rfl⟩
    | cons c more =>
      have run : takeWhile1 isTextChar (c :: more ++ behind) = .matched (c :: more) behind :=
        takeWhile1_matched_iff.mpr ⟨rfl, by simp, fun d hd => isTextChar_of_isPartChar (all d hd), stops⟩
      have noBracket : c ≠ '[' := by
        rintro rfl
        exact absurd (all '[' List.mem_cons_self) (by decide)
      have piece : textPiece (c :: more ++ behind) = .matched (c :: more) behind :=
        orElse_matched_iff.mpr (.inr ⟨mismatches_listIndex (by simpa using noBracket), run⟩)
      have shorter : behind.length < (c :: more ++ behind).length := by
        simp only [List.length_append, List.length_cons]
        omega
      exact ⟨[c :: more], many_of_matched piece shorter (many_of_mismatches noPiece), by simp⟩
  obtain ⟨pieces, found, rfl⟩ := pieces
  rw [unquotedText_eq, List.cons_append, bind_of_matched (charWhere_cons start _),
    bind_of_matched found]
  rfl

/-- A part of the name of a call may also be a boolean. -/
theorem boolean_part {part behind found rest : Text} (isPart : IsNamePart part)
    (stops : Text.Stops isPartChar behind) (h : boolean (part ++ behind) = .matched found rest) :
    rest = behind := by
  obtain ⟨same, -, ends⟩ := boolean_matched_iff.mp h
  have letters := isAlphabetic_of_isBoolean (isBoolean_of_matched h)
  have first : ∀ c ∈ part, isPartChar c = true := by
    obtain ⟨first, others, rfl, letter, all⟩ := isPart
    rintro c (_ | ⟨_, hc⟩)
    · simp [isPartChar, isAlphanumeric_of_isAlphabetic letter]
    · exact all c hc
  have second : ∀ c ∈ found, isPartChar c = true := fun c hc => by
    simp [isPartChar, isAlphanumeric_of_isAlphabetic (letters c hc)]
  have more : Text.Stops isPartChar rest := ends.mono fun c h => by
    rw [isPartChar] at h
    rw [isNameChar, h, Bool.true_or, Bool.true_or]
  exact (Text.run_unique first second stops more same).2.symm

/-- Behind the part stands white space, the parenthesis or a colon. -/
theorem head_behind_part {behind rest : Text}
    (h : behind.trimInline = '(' :: rest ∨ ∃ more, behind = ':' :: ':' :: more) :
    ∀ c ∈ behind.head?, isWhitespace c = true ∨ c ∈ ['(', ':'] := by
  intro c head
  obtain ⟨tail, rfl⟩ := List.head?_eq_some_iff.mp head
  rcases h with opens | ⟨more, same⟩
  · by_cases inline : Text.isInline c = true
    · exact .inl (Bool.and_eq_true_iff.mp inline).1
    · rw [Text.trimInline_of_stops ((Text.stops_cons ..).mpr (by simpa using inline))] at opens
      simp [(List.cons.inj opens).1]
  · simp [(List.cons.inj same).1]

/-- A call whose arguments cannot be read leaves them behind its name, when that is taken for a
text. -/
theorem StuckTerm.of_part {behind rest : Text}
    (h : behind.trimInline = '(' :: rest ∨ ∃ more, behind = ':' :: ':' :: more)
    (stranded : Stranded ('(' :: rest)) : StuckTerm behind := by
  rcases h with opens | ⟨more, rfl⟩
  · have start : behind.trimStart = '(' :: rest := by
      have notSpace : isWhitespace '(' = false := by decide
      rw [← Text.trimStart_trimInline, opens, Text.trimStart_cons notSpace]
    exact ⟨opens.trans start.symm, .inl ⟨rest, start, stranded⟩⟩
  · have notSpace : isWhitespace ':' = false := by decide
    have start := Text.trimStart_cons notSpace (':' :: more)
    refine ⟨?_, .inr ⟨more, start⟩⟩
    rw [start, Text.trimInline_of_stops ((Text.stops_cons ..).mpr (by decide))]

/-! ### Brackets that are never closed -/

/-- The keyword at the end of a text has no brackets behind it. -/
theorem notMem_of_keyword {c : Char} {text : Text} (last : text.trimStart = "for".toList)
    (notSpace : isWhitespace c = false) (apart : c ∉ "for".toList) : c ∉ text := by
  obtain ⟨space, isSpace, split⟩ := Text.trimStart_split text
  rw [split, last, List.mem_append, not_or]
  exact ⟨fun mem => by simp [isSpace c mem] at notSpace, apart⟩

/-- Elements are not read where their closing bracket is missing. -/
theorem refuses_elements {bracket : Char} {text : Text} (without : bracket ∉ text)
    (construct : Construct) : (elements inner bracket construct).Refuses text := by
  rw [elements_eq_many]
  refine Refuses.behind fun _ rest found => (refuses_closing (fun inside => ?_) construct).bind _
  exact without ((Descends.of_matched found).subset inside)

/-- What stands behind the opening brace of a map. -/
def mapEnd : Rule Node := do
  let entries ← inner.declarations
  closing '}' .map
  return .map entries

/-- The entries of a map are not read where its closing brace is missing. -/
theorem refuses_mapEnd {text : Text} (without : '}' ∉ text) : mapEnd.Refuses text :=
  Refuses.behind fun _ _ found => (refuses_closing
    (fun inside => without ((Descends.of_matched found).subset inside)) .map).bind _

/-- No body ends where no map would. -/
theorem refuses_bodyEnd {text : Text} (h : mapEnd.Refuses text) : (bodyEnd inner).Refuses text := by
  refine Refuses.behind fun found rest taken => Refuses.behind fun _ behind space => ?_
  obtain rfl := whitespace_matched_iff.mp space
  refine Refuses.bind (fun _ after brace => ?_) _
  obtain ⟨start, -⟩ := char_matched_iff.mp brace
  have closes : closing '}' .map rest = .matched () after := closing_matched_iff.mpr start
  exact h (.map found) after ((bind_of_matched taken).trans (bind_of_matched closes))

/-- Behind its opening bracket a list or map goes on as if it did not start with the keyword. -/
theorem refuses_bracketed {opening : Char} {rest : Text} {next : Rule Node} (h : next.Refuses rest) :
    (char opening >>= fun _ => notFollowedBy forKeyword >>= fun _ => next).Refuses (opening :: rest) := by
  refine Refuses.behind fun _ behind found => Refuses.behind fun _ after looks => ?_
  obtain ⟨same, -⟩ := char_matched_iff.mp found
  obtain rfl := (notFollowedBy_matched_iff.mp looks).2
  exact (List.cons.inj same).2 ▸ h

/-- A brace is not the start of a block whose entries cannot be read. -/
theorem refuses_blockBody {text : Text} (h : (bodyEnd inner).Refuses text) :
    (blockBody inner).Refuses ('{' :: text) := by
  have notSpace : isWhitespace '{' = false := by decide
  rw [blockBody_eq]
  refine Refuses.behind fun _ rest space => Refuses.behind fun _ behind brace => ?_
  rw [whitespace_matched_iff, Text.trimStart_cons notSpace] at space
  subst space
  obtain ⟨same, -⟩ := char_matched_iff.mp brace
  exact (List.cons.inj same).2 ▸ h.body

/-! ### Terms -/

/-- A bracket or heredoc where no name and no block body is read. -/
structure Unopened (text : Text) : Prop where
  starts : ∃ c rest, text = c :: rest ∧ (c ∈ ['(', '[', '{'] ∨ c = '<' ∧ rest.head? = some '<')
  noName : identifier.Mismatches text
  noBody : (blockBody inner).Refuses text

/-- If no term starts there either, the text is stranded. -/
theorem Unopened.stranded {text : Text} (h : Unopened text) (noTerm : (operand inner).Mismatches text) :
    Stranded text := by
  obtain ⟨c, rest, rfl, starts⟩ := h.starts
  exact .bracket starts noTerm h.noName h.noBody

/-- No block body is read at another character. -/
theorem refuses_blockBody_cons {c : Char} (notSpace : isWhitespace c = false) (noBrace : c ≠ '{')
    (rest : Text) : (blockBody inner).Refuses (c :: rest) := by
  refine (mismatches_blockBody ?_).refuses
  rw [Text.trimStart_cons notSpace]
  simpa using noBrace

/-- What is no name in parentheses is no name. -/
theorem unopened_parenthesis {rest : Text} (h : ¬ rest.Fenced) : Unopened ('(' :: rest) where
  starts := ⟨'(', rest, rfl, .inl (by decide)⟩
  noName := by
    rcases answers identifier ('(' :: rest) with mismatch | ⟨name, behind, found⟩
    · exact mismatch
    · have noChars : (takeWhile1 isNameChar).Mismatches ('(' :: rest) :=
        mismatches_takeWhile1_iff.mpr ((Text.stops_cons ..).mpr (by decide))
      rcases orElse_matched_iff.mp found with bare | ⟨-, inParentheses⟩
      · exact absurd noChars (not_mismatches_of_matched bare)
      · simp only [bind_matched_iff, char_matched_iff, takeWhile1_matched_iff,
          pure_matched_iff] at inParentheses
        obtain ⟨_, _, ⟨same, -⟩, inside, _, ⟨rfl, -, all, -⟩, _, tail, ⟨rfl, -⟩, -⟩ := inParentheses
        exact absurd ((List.cons.inj same).2 ▸ Text.fenced_append all tail) h
  noBody := refuses_blockBody_cons (by decide) (by decide) _

/-- A list is neither a name nor a block body. -/
theorem unopened_list (rest : Text) : Unopened ('[' :: rest) where
  starts := ⟨'[', rest, rfl, .inl (by decide)⟩
  noName := mismatches_identifier ((Text.stops_cons ..).mpr (by decide))
  noBody := refuses_blockBody_cons (by decide) (by decide) _

/-- A heredoc is neither a name nor a block body. -/
theorem unopened_heredoc (rest : Text) : Unopened ('<' :: '<' :: rest) where
  starts := ⟨'<', _, rfl, .inr ⟨rfl, rfl⟩⟩
  noName := mismatches_identifier ((Text.stops_cons ..).mpr (by decide))
  noBody := refuses_blockBody_cons (by decide) (by decide) _

/-- A map is neither a name nor a block body, if its entries cannot be read as those of a block. -/
theorem unopened_brace {rest : Text} (h : (bodyEnd inner).Refuses rest) : Unopened ('{' :: rest) where
  starts := ⟨'{', rest, rfl, .inl (by decide)⟩
  noName := mismatches_identifier ((Text.stops_cons ..).mpr (by decide))
  noBody := refuses_blockBody h

/-- The arguments of a call or group do not depend on which of the two they are. -/
theorem mismatches_elements {text : Text} {bracket : Char} {construct other : Construct}
    (h : (elements inner bracket construct).Mismatches text) :
    (elements inner bracket other).Mismatches text := by
  rw [elements_eq_many] at h ⊢
  rcases mismatches_bind_iff.mp h with never | ⟨found, rest, taken, h⟩
  · exact absurd never (not_mismatches _ _)
  · refine Mismatches.behind taken ?_
    rcases mismatches_bind_iff.mp h with ⟨place, h⟩ | ⟨_, _, -, never⟩
    · refine Mismatches.bind (?_ : (closing bracket other).Mismatches rest) _
      rw [closing_apply] at h
      split at h
      · cases h
      · next visible => exact ⟨place, by rw [closing_apply, if_neg visible, h]⟩
    · exact absurd never (not_mismatches_pure _ _)

/-! The alternatives of a term, each with those that are tried behind it. -/

/-- A literal, or else unquoted text. -/
def literalTerm : Rule Node :=
  scalar <|> do return .unquotedString (← unquotedText)

/-- A heredoc, or else what is tried behind it. -/
def heredocTerm : Rule Node :=
  (do return .heredoc (← heredoc)) <|> literalTerm

/-- A map or what is tried behind it. -/
def mapTerm : Rule Node :=
  map inner <|> heredocTerm

/-- A list or what is tried behind it. -/
def listTerm : Rule Node :=
  list inner <|> mapTerm

/-- A for expression in square brackets or what is tried behind it. -/
def forListTerm : Rule Node :=
  (do return .forLoop (← forList)) <|> listTerm

/-- A for expression in braces or what is tried behind it. -/
def forObjectTerm : Rule Node :=
  (do return .forLoop (← forObject)) <|> forListTerm

/-- A group or what is tried behind it. -/
def groupTerm : Rule Node :=
  parenthesized inner <|> forObjectTerm

instance : Steady bound literalTerm := by
  unfold literalTerm
  infer_instance

/-- A term is a call or one of the others. -/
theorem operand_eq : operand inner = (functionCall inner <|> groupTerm) := rfl

section Brackets

variable {c : Char} {rest : Text}

/-- Neither a literal nor a text starts with an opening bracket. -/
theorem mismatches_literalTerm (listed : c ∈ ['(', '[', '{', '<']) :
    literalTerm.Mismatches (c :: rest) := by
  have apart : ∀ c ∈ ['(', '[', '{', '<'], c ≠ '"' ∧ (c.isDigit || c == '-') = false
      ∧ isAlphabetic c = false ∧ (isTextChar c && c != '.' && c != '*') = false := by decide
  obtain ⟨notQuote, notDigit, notLetter, notText⟩ := apart c listed
  have noScalar : scalar.Mismatches (c :: rest) :=
    mismatches_scalar (by simpa using notQuote) (mismatches_number ((Text.stops_cons ..).mpr notDigit))
      (mismatches_boolean ((Text.stops_cons ..).mpr notLetter))
  exact mismatches_orElse_iff.mpr ⟨noScalar, mismatches_unquotedText notText⟩

/-- No heredoc or literal starts with an opening bracket. -/
theorem mismatches_heredocTerm (listed : c ∈ ['(', '[', '{']) : heredocTerm.Mismatches (c :: rest) := by
  have apart : ∀ c ∈ ['(', '[', '{'], c ≠ '<' ∧ c ∈ ['(', '[', '{', '<'] := by decide
  exact mismatches_orElse_iff.mpr ⟨mismatches_heredoc (by simpa using (apart c listed).1),
    mismatches_literalTerm (apart c listed).2⟩

/-- No map and nothing that is tried after it starts with the bracket of a list or group. -/
theorem mismatches_mapTerm (listed : c ∈ ['(', '[']) : mapTerm.Mismatches (c :: rest) := by
  have apart : ∀ c ∈ ['(', '['], c ≠ '{' ∧ c ∈ ['(', '[', '{'] := by decide
  exact mismatches_orElse_iff.mpr ⟨mismatches_map (by simpa using (apart c listed).1),
    mismatches_heredocTerm (apart c listed).2⟩

/-- Behind the rule for groups, no term starts with a parenthesis. -/
theorem mismatches_forObjectTerm : forObjectTerm.Mismatches ('(' :: rest) := by
  refine mismatches_orElse_iff.mpr ⟨mismatches_forObject (by simp), ?_⟩
  refine mismatches_orElse_iff.mpr ⟨mismatches_forList (by simp), ?_⟩
  exact mismatches_orElse_iff.mpr ⟨mismatches_list (by simp), mismatches_mapTerm (by decide)⟩

/-- Nothing is read at a square bracket that is never closed. -/
theorem refuses_listTerm (without : ']' ∉ rest) : listTerm.Refuses ('[' :: rest) := by
  refine Refuses.orElse (refuses_bracketed ?_) (mismatches_mapTerm (by decide)).refuses
  exact (refuses_elements without .list).bind _

/-- Nothing is read at a brace that is never closed. -/
theorem refuses_forListTerm (without : '}' ∉ rest) : forListTerm.Refuses ('{' :: rest) := by
  refine Refuses.orElse (mismatches_forList (by simp)).refuses ?_
  refine Refuses.orElse (mismatches_list (by simp)).refuses ?_
  refine Refuses.orElse (refuses_bracketed ?_) (mismatches_heredocTerm (by decide)).refuses
  exact refuses_mapEnd without

/-- A text that starts with a letter starts with no bracket. -/
theorem groupTerm_of_letter (letter : isAlphabetic c = true) :
    groupTerm (c :: rest) = literalTerm (c :: rest) := by
  have apart : ∀ d ∈ ['(', '[', '{', '<'], isAlphabetic d = false := by decide
  have head {d : Char} (listed : d ∈ ['(', '[', '{', '<']) : (c :: rest).head? ≠ some d :=
    Text.head?_cons_ne letter (apart d listed) rest
  rw [groupTerm, orElse_of_mismatches (mismatches_parenthesized (head (by decide))), forObjectTerm,
    orElse_of_mismatches (mismatches_forObject (head (by decide))), forListTerm,
    orElse_of_mismatches (mismatches_forList (head (by decide))), listTerm,
    orElse_of_mismatches (mismatches_list (head (by decide))), mapTerm,
    orElse_of_mismatches (mismatches_map (head (by decide))), heredocTerm,
    orElse_of_mismatches (mismatches_heredoc (head (by decide)))]

end Brackets

/-- A call whose arguments cannot be read is stuck behind its name. -/
theorem groupTerm_of_callStart {text name rest : Text} (h : callStart text = .matched name rest)
    (stranded : Stranded ('(' :: rest)) {late : Prop} :
    (groupTerm text).Falters late StuckTerm := by
  obtain ⟨part, behind, rfl, isPart, ends⟩ := callStart_part h
  have stuck := StuckTerm.of_part ends stranded
  have head := head_behind_part ends
  have texts : Text.Stops isTextChar behind := fun c hc => by
    have apart : ∀ c ∈ ['(', ':'], isTextChar c = false := by decide
    rcases head c hc with space | listed
    · simp [isTextChar, space]
    · exact apart c listed
  have noIndex : behind.head? ≠ some '[' := fun same =>
    absurd (head '[' same) (by decide)
  obtain ⟨c, more, rfl, letter, -⟩ := id isPart
  have noQuote : (c :: more ++ behind).head? ≠ some '"' :=
    Text.head?_cons_ne letter (by decide) (more ++ behind)
  have noNumber : number.Mismatches (c :: more ++ behind) :=
    mismatches_number ((Text.stops_cons ..).mpr (startsNumber_of_isAlphabetic letter))
  rw [List.cons_append, groupTerm_of_letter letter, ← List.cons_append, literalTerm]
  -- The name is taken for a text, unless it is a boolean.
  rcases answers boolean (c :: more ++ behind) with noBoolean | ⟨found, after, taken⟩
  · rw [orElse_of_mismatches (mismatches_scalar noQuote noNumber noBoolean),
      map_of_matched (unquotedText_part isPart texts noIndex)]
    exact stuck
  · obtain rfl := boolean_part isPart (texts.mono fun _ => isTextChar_of_isPartChar) taken
    have literal : scalar (c :: more ++ after) = .matched (.numberOrBool found) after := by
      rw [scalar, orElse_of_mismatches (Mismatches.bind (mismatches_quotedString_iff.mpr noQuote) _)]
      exact bind_of_matched (orElse_matched_iff.mpr (.inr ⟨noNumber, taken⟩))
    rw [orElse_of_matched literal]
    exact stuck

section Operand

variable (hvalue : Wavers Stranded Halted bound inner.value)
  (hdeclarations : Wavers Never Leftover bound inner.declarations)

include hvalue

/-- A call falters where its arguments do, and its parenthesis is then stranded. -/
theorem wavers_functionCall :
    Wavers (fun text => ∃ name rest, callStart text = .matched name rest ∧ Stranded ('(' :: rest))
      Never (bound + 1) (functionCall inner) := by
  have arguments := wavers_elements hvalue ')' .functionCall (by decide)
  refine Wavers.taken callStart_shortens (fun _ => arguments.map _) ?_
  rintro text name rest found ⟨mismatch, unfenced⟩
  refine ⟨name, rest, found, (unopened_parenthesis unfenced).stranded ?_⟩
  -- The arguments cannot be read as a group either, and nothing else starts with a parenthesis.
  have noGroup : groupTerm.Mismatches ('(' :: rest) := by
    refine mismatches_orElse_iff.mpr ⟨?_, mismatches_forObjectTerm⟩
    exact Mismatches.behind (char_cons '(' rest) ((mismatches_elements mismatch).bind _)
  have noName : callStart.Mismatches ('(' :: rest) :=
    mismatches_callStart ((Text.stops_cons ..).mpr (by decide))
  rw [operand_eq]
  exact mismatches_orElse_iff.mpr ⟨mismatches_functionCall noName, noGroup⟩

/-- A group falters unless a name is all that stands in its parentheses. -/
theorem wavers_parenthesized :
    Wavers (fun text => ∃ rest : Text, text = '(' :: rest ∧ ¬ rest.Fenced) Never (bound + 1)
      (parenthesized inner) := by
  have arguments := wavers_elements hvalue ')' .parenthesized (by decide)
  refine Wavers.opening '(' ((arguments.map _).mono ?_ fun _ => id)
  rintro rest ⟨-, unfenced⟩
  exact unfenced

/-- A list falters where its elements do. -/
theorem wavers_list :
    Wavers (fun text => ∃ rest, text = '[' :: rest ∧ True) Never (bound + 1) (list inner) := by
  have inside := wavers_elements hvalue ']' .list (by decide)
  refine Wavers.opening '[' (Wavers.noKeyword ?_ fun text last => ?_)
  · exact (inside.map _).mono (fun _ _ => trivial) fun _ => id
  · have without : ']' ∉ text := notMem_of_keyword last (by decide) (by decide)
    exact (refuses_elements without .list).bind _

omit hvalue

include hdeclarations

/-- A map falters where its entries do, and those of a block then do as well. -/
theorem wavers_map :
    Wavers (fun text => ∃ rest, text = '{' :: rest ∧ (bodyEnd inner).Refuses rest) Never (bound + 1)
      (map inner) := by
  have entries : Wavers (fun _ => True) Never bound mapEnd := by
    have declarations : Wavers (fun _ => True) Leftover bound inner.declarations :=
      hdeclarations.mono (fun _ => False.elim) fun _ => id
    refine declarations.bind (fun _ => Steady.weaken _) (fun _ => False.elim) ?_
    rintro _ _ rest _ ⟨c, tail, start, notBrace⟩
    have noBrace : (closing '}' .map).Mismatches rest := mismatches_closing start notBrace .map
    exact (noBrace.bind _).refuses.falters trivial
  refine Wavers.opening '{' (Wavers.noKeyword (entries.sharpen fun _ mismatch _ _ => ?_)
    fun text last => ?_)
  · exact refuses_bodyEnd mismatch.refuses
  · exact refuses_mapEnd (notMem_of_keyword last (by decide) (by decide))

include hvalue

/-- A term makes a fault late only where it is stranded, and gets stuck only behind the name of a
call. -/
theorem wavers_operand : Wavers Stranded StuckTerm (bound + 1) (operand inner) := by
  have never {rule : Rule Node} {late : Text → Prop} (h : Wavers late Never (bound + 1) rule) :
      Wavers late StuckTerm (bound + 1) rule := h.mono (fun _ => id) fun _ => False.elim
  -- From the last alternative to the first: the bracket that is a fault late is none of the later
  -- ones.
  have heredocs : Wavers Unopened StuckTerm (bound + 1) heredocTerm := by
    refine Wavers.orElse (never (wavers_heredoc.map Node.heredoc)) (Steady.weaken literalTerm) ?_
    rintro _ - - ⟨rest, rfl⟩
    exact (mismatches_literalTerm (by decide)).refuses.falters (unopened_heredoc rest)
  have maps : Wavers Unopened StuckTerm (bound + 1) mapTerm := by
    refine Wavers.orElse (never (wavers_map hdeclarations)) heredocs ?_
    rintro _ - - ⟨rest, rfl, noBody⟩
    exact (mismatches_heredocTerm (by decide)).refuses.falters (unopened_brace noBody)
  have lists : Wavers Unopened StuckTerm (bound + 1) listTerm := by
    refine Wavers.orElse (never (wavers_list hvalue)) maps ?_
    rintro _ - - ⟨rest, rfl, -⟩
    exact (mismatches_mapTerm (by decide)).refuses.falters (unopened_list rest)
  have forLists : Wavers Unopened StuckTerm (bound + 1) forListTerm := by
    refine Wavers.orElse (never ((wavers_forLoop '[' (by decide)).map Node.forLoop)) lists ?_
    rintro _ - - ⟨rest, rfl, without⟩
    exact (refuses_listTerm without).falters (unopened_list rest)
  have forObjects : Wavers Unopened StuckTerm (bound + 1) forObjectTerm := by
    refine Wavers.orElse (never ((wavers_forLoop '{' (by decide)).map Node.forLoop)) forLists ?_
    rintro _ - - ⟨rest, rfl, without⟩
    have noBody := refuses_bodyEnd (refuses_mapEnd without)
    exact (refuses_forListTerm without).falters (unopened_brace noBody)
  have groups : Wavers Unopened StuckTerm (bound + 1) groupTerm := by
    refine Wavers.orElse (never (wavers_parenthesized hvalue)) forObjects ?_
    rintro _ - - ⟨rest, rfl, unfenced⟩
    exact mismatches_forObjectTerm.refuses.falters (unopened_parenthesis unfenced)
  have terms : Wavers Unopened StuckTerm (bound + 1) (operand inner) := by
    rw [operand_eq]
    refine Wavers.orElse (never (wavers_functionCall hvalue)) groups ?_
    rintro _ - - ⟨name, rest, called, stranded⟩
    exact groupTerm_of_callStart called stranded
  exact terms.sharpen fun _ mismatch _ unopened => unopened.stranded mismatch

/-- No accessor follows where a term got stuck. -/
theorem wavers_operandWithAccessor :
    Wavers Stranded StuckTerm (bound + 1) (operandWithAccessor inner) := by
  refine (wavers_operand hvalue hdeclarations).bind (fun term => ?_) (fun _ => False.elim)
    fun {_ term rest} _ stuck => ?_
  · refine Wavers.mono (?_ : Wavers Never StuckTerm _ _) (fun _ => id) fun _ => id
    split
    · refine Wavers.behind (fun found => ?_) fun _ => id
      cases found <;> exact Steady.weaken _
    · exact Steady.weaken _
  · by_cases takes : takesAccessor term = true
    · rw [if_pos takes, bind_of_matched (optional_of_mismatches stuck.mismatches_accessor)]
      exact stuck
    · rw [if_neg takes]
      exact stuck

/-- Signs are taken one after the other: what is stranded behind them is stranded. -/
theorem wavers_unaryOperand : Wavers Stranded StuckTerm (bound + 1) (unaryOperand inner) := by
  have unsigned := wavers_operandWithAccessor hvalue hdeclarations
  -- Behind a sign the rule is asked again on a shorter text, so the bound is what the induction is
  -- on.
  suffices each : ∀ n ≤ bound + 1, Wavers Stranded StuckTerm n (unaryOperand inner) from
    each _ (Nat.le_refl _)
  intro n
  induction n with
  | zero => exact fun _ => ⟨fun short => absurd short (Nat.not_lt_zero _)⟩
  | succ n ih =>
    intro small
    have signed : Wavers Stranded StuckTerm (n + 1) (signedOperand inner) :=
      Wavers.taken (fun found => Consumes.shortens found)
        (fun _ => Wavers.spaced ((ih (Nat.le_of_succ_le small)).map _)) fun found stranded => by
          obtain ⟨rfl, isSign⟩ := oneOf_matched_iff.mp found
          exact .sign isSign stranded
    have choice : Wavers Stranded StuckTerm (n + 1) (operandWithAccessor inner <|> signedOperand inner) :=
      Wavers.orElse (unsigned.of_le small) signed fun _ _ stranded => by
        obtain ⟨place, gaveUp⟩ := stranded.mismatches_unaryOperand
        rw [unaryOperand_eq] at gaveUp
        exact (mismatches_orElse_iff.mp ⟨place, gaveUp⟩).2.refuses.falters stranded
    refine ⟨fun short hbroken => ?_⟩
    rw [unaryOperand_eq, unaryOperand_eq]
    exact choice.follows short hbroken

/-- An operator is left where the term behind it is stranded. -/
theorem wavers_operation (multiline : Bool) :
    Wavers (fun text => Stuck (skip multiline text)) StuckTerm (bound + 1)
      (operation inner multiline) := by
  refine ⟨fun {text broken} short hbroken => ?_⟩
  have spaces : Text.Broken (skip multiline text) (skip multiline broken) := by
    cases multiline
    · exact hbroken.trimInline
    · exact hbroken.trimStart
  have shorter := (skip_suffix multiline text).length_le
  have symbols : Wavers Stuck StuckTerm (bound + 1) (operator >>= fun symbol => whitespace >>= fun _ =>
      unaryOperand inner >>= fun operands => pure (.mathSymbol symbol :: operands)) :=
    Wavers.behind (fun symbol => Wavers.spaced ((wavers_unaryOperand hvalue hdeclarations).map
      (Node.mathSymbol symbol :: ·))) fun found stranded => .operator found stranded
  rw [operation_apply, operation_apply]
  exact symbols.follows (by omega) spaces

/-- Operators falter only where the last of them is left with a stranded term behind it. -/
theorem wavers_operations (multiline : Bool) :
    Wavers Never Halted (bound + 1) (many (operation inner multiline)) := by
  refine ((wavers_operation hvalue hdeclarations multiline).many fun _ stuck =>
    (stuck.mismatches_operation multiline).refuses).mono (fun _ => id) ?_
  rintro rest (stuck | stuck)
  · exact stuck.stuck
  · -- Behind the white space of the line stands the operator, so that is all of the white space.
    have same : rest.trimStart = skip multiline rest := by
      rw [← stuck.trimStart]
      cases multiline
      · exact (Text.trimStart_trimInline rest).symm
      · exact (Text.trimStart_of_stops (Text.stops_trimStart rest)).symm
    rwa [Halted, same]

/-- The terms of an expression falter where the first is stranded, or leave a stuck text. -/
theorem wavers_expressionTerms (multiline : Bool) :
    Wavers Stranded Halted (bound + 1) (expressionTerms inner multiline) := by
  rw [expressionTerms_eq]
  refine (wavers_unaryOperand hvalue hdeclarations).bind
    (fun first => (wavers_operations hvalue hdeclarations multiline).map _) (fun _ => False.elim)
    fun _ stuck => ?_
  rw [bind_of_matched (many_of_mismatches (stuck.mismatches_operation multiline))]
  exact stuck.stuck

/-- A value makes a fault late only where it is stranded. -/
theorem wavers_valueOver : Wavers Stranded Halted (bound + 1) (valueOver inner) :=
  (wavers_expressionTerms hvalue hdeclarations true).map ofTerms

end Operand

end Grammar

end HclSyntax
