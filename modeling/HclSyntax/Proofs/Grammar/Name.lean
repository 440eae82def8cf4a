import HclSyntax.Grammar.Expression
import HclSyntax.Node.Render
import HclSyntax.Proofs.Rule.Lookahead
import HclSyntax.Proofs.Text.CharacterClass
import HclSyntax.Proofs.Text.Quoting
import HclSyntax.Proofs.Text.Trim

/-!
# `HclSyntax.Proofs.Grammar.Name`: names and labels are read back

A bare name is read back where no character of a name follows it (`propertyName_source`), a quoted
name and a label before any text (`label_quote`), and the name of a call before its parenthesis
(`callStart_append`). In each case what the rule takes from some text has the form that is read
back.

The last part says where a call can start: `head_of_callStart` gives the character that has to
follow the letters at the front of a text.
-/

set_option autoImplicit false

namespace HclSyntax.Grammar

open Rule

/-! ### Names of declarations -/

/-- The marks of a bare name are visible. -/
theorem isWhitespace_of_isNameChar {c : Char} (h : isNameChar c = true) :
    isWhitespace c = false := by
  have word : isAlphanumeric c = true ∨ c ∈ ['_', '-', '.'] := by
    simpa [isNameChar, or_assoc] using h
  exact isWhitespace_of_isAlphanumeric_or_mem (by decide) word

/-- A bare name, possibly in parentheses. -/
inductive IsIdentifier : Text → Prop
  | bare {name : Text} (nonempty : name ≠ []) (all : ∀ c ∈ name, isNameChar c = true) :
    IsIdentifier name
  | parenthesized {name : Text} (nonempty : name ≠ []) (all : ∀ c ∈ name, isNameChar c = true) :
    IsIdentifier ('(' :: name ++ [')'])

/-- What the rule for identifiers takes is one. -/
theorem isIdentifier_of_matched {text name rest : Text}
    (h : identifier text = .matched name rest) : IsIdentifier name := by
  rcases orElse_matched_iff.mp h with takes | ⟨-, takes⟩
  · obtain ⟨-, nonempty, all, -⟩ := takeWhile1_matched_iff.mp takes
    exact .bare nonempty all
  · simp only [bind_matched_iff, takeWhile1_matched_iff, pure_matched_iff] at takes
    obtain ⟨_, _, -, name, _, ⟨-, nonempty, all, -⟩, _, _, -, rfl, -⟩ := takes
    exact .parenthesized nonempty all

/-- An identifier is taken whole where the name does not go on. -/
theorem identifier_append {name rest : Text} (h : IsIdentifier name)
    (stops : Text.Stops isNameChar rest) : identifier (name ++ rest) = .matched name rest := by
  unfold identifier
  rw [orElse_matched_iff]
  cases h with
  | bare nonempty all => exact .inl (takeWhile1_matched_iff.mpr ⟨rfl, nonempty, all, stops⟩)
  | @parenthesized name nonempty all =>
    refine .inr ⟨mismatches_takeWhile1_iff.mpr ?_, ?_⟩
    · exact (Text.stops_cons ..).mpr (by decide)
    · simp only [bind_matched_iff, char_matched_iff, takeWhile1_matched_iff, pure_matched_iff]
      refine ⟨'(', name ++ ')' :: rest, ⟨by simp, rfl⟩, name, ')' :: rest,
        ⟨rfl, nonempty, all, (Text.stops_cons ..).mpr (by decide)⟩, ')', rest, ⟨rfl, rfl⟩, rfl, rfl⟩

/-- The name is one that a text can have. -/
def IsName (name : Name) : Prop :=
  name.quoted = false → IsIdentifier name.text

/-- The name has no template sequence that never ends between quotes. -/
def NameEnds (name : Name) : Prop :=
  name.quoted = true → name.text.sequencesEnd = true

instance (name : Name) : Decidable (NameEnds name) :=
  inferInstanceAs (Decidable (_ → _))

/-- What the rule for names takes is one. -/
theorem isName_of_matched {text rest : Text} {name : Name}
    (h : propertyName text = .matched name rest) : IsName name := by
  rcases orElse_matched_iff.mp h with takes | ⟨-, takes⟩
  · simp only [bind_matched_iff, pure_matched_iff] at takes
    obtain ⟨found, _, found, rfl, -⟩ := takes
    exact fun _ => isIdentifier_of_matched found
  · simp only [bind_matched_iff, pure_matched_iff] at takes
    obtain ⟨found, _, -, rfl, -⟩ := takes
    intro quoted
    cases quoted

/-- The characters that a name or label can start with. -/
def startsName (c : Char) : Bool :=
  isNameChar c || c == '(' || c == '"'

/-- A name starts with one of its characters or with a parenthesis. -/
theorem mismatches_identifier {text : Text}
    (apart : Text.Stops (fun c => isNameChar c || c == '(') text) : identifier.Mismatches text := by
  refine mismatches_orElse_iff.mpr ⟨mismatches_takeWhile1_iff.mpr fun c hc => ?_,
    Mismatches.bind (mismatches_char_iff.mpr fun opens => ?_) _⟩
  · exact (Bool.or_eq_false_iff.mp (apart c hc)).1
  · simpa using apart '(' opens

/-- A quoted string gives up only where there is no quote. -/
theorem mismatches_quotedString_iff {text : Text} :
    quotedString.Mismatches text ↔ text.head? ≠ some '"' := by
  unfold quotedString Mismatches
  cases text with
  | nil => simp
  | cons c rest =>
    by_cases h : c = '"'
    · simp only [h, if_true]
      split <;> simp
    · simp [h]

/-- A text that starts like no name has none at its front. -/
theorem mismatches_propertyName {text : Text} (apart : Text.Stops startsName text) :
    propertyName.Mismatches text := by
  refine mismatches_orElse_iff.mpr ⟨Mismatches.bind (mismatches_identifier fun c hc => ?_) _,
    Mismatches.bind (mismatches_quotedString_iff.mpr fun quote => ?_) _⟩
  · exact (Bool.or_eq_false_iff.mp (apart c hc)).1
  · simpa [startsName] using apart '"' quote

/-- A text that starts like no name has no label at its front. -/
theorem mismatches_label {text : Text} (apart : Text.Stops startsName text) :
    label.Mismatches text := by
  refine mismatches_orElse_iff.mpr ⟨mismatches_quotedString_iff.mpr fun quote => ?_,
    mismatches_identifier fun c hc => ?_⟩
  · simpa [startsName] using apart '"' quote
  · exact (Bool.or_eq_false_iff.mp (apart c hc)).1

/-- A name is read back where the name does not go on. -/
theorem propertyName_source {name : Name} (h : IsName name) (ends : NameEnds name) {rest : Text}
    (stops : Text.Stops isNameChar rest) :
    propertyName (name.source ++ rest) = .matched name rest := by
  obtain ⟨text, quoted⟩ := name
  unfold propertyName Name.source
  rw [orElse_matched_iff]
  cases quoted with
  | false =>
    refine .inl ?_
    simp only [bind_matched_iff, pure_matched_iff]
    exact ⟨text, rest, identifier_append (h rfl) stops, rfl, rfl⟩
  | true =>
    -- A quote starts no identifier, so the alternative for bare names does not apply.
    refine .inr ⟨Mismatches.bind (mismatches_identifier ?_) _, ?_⟩
    · exact (Text.stops_cons ..).mpr (by decide)
    simp only [bind_matched_iff, pure_matched_iff]
    exact ⟨text, rest, quotedString_quote (ends rfl) rest, rfl, rfl⟩

/-- A name that starts with a word in front of white space is that word. -/
theorem IsName.eq_bare {name : Name} (h : IsName name) {word more tail : Text} {c : Char}
    (nonempty : word ≠ []) (chars : ∀ d ∈ word, isNameChar d = true)
    (shape : name.source ++ ' ' :: more = word ++ c :: tail) (space : isWhitespace c = true) :
    name = .bare word := by
  have notNameChar : isNameChar c = false := by
    rw [← Bool.not_eq_true]
    intro nameChar
    simp [isWhitespace_of_isNameChar nameChar] at space
  have stops : Text.Stops isNameChar (c :: tail) := (Text.stops_cons ..).mpr notNameChar
  -- A quote and a parenthesis are no characters of the word, so it would be empty.
  have noRun (d : Char) (text : Text) (other : isNameChar d = false)
      (starts : name.source = d :: text) : name = .bare word := by
    rw [starts] at shape
    have nothing : ∀ e ∈ ([] : Text), isNameChar e = true := by simp
    exact absurd (Text.run_unique nothing chars ((Text.stops_cons ..).mpr other) stops shape).1.symm
      nonempty
  obtain ⟨text, quoted⟩ := name
  cases quoted with
  | true => exact noRun '"' _ (by decide) rfl
  | false =>
    have identifier : IsIdentifier text := h rfl
    cases identifier with
    | bare _ all =>
      have blank : Text.Stops isNameChar (' ' :: more) := (Text.stops_cons ..).mpr (by decide)
      obtain ⟨rfl, -⟩ := Text.run_unique all chars blank stops shape
      rfl
    | parenthesized => exact noRun '(' _ (by decide) rfl

/-- Any other name does not start with the word. -/
theorem mismatches_keyword_source {name : Name} (h : IsName name) {word : Text} (nonempty : word ≠ [])
    (chars : ∀ d ∈ word, isNameChar d = true) (other : name ≠ .bare word) (more : Text) :
    (keyword word).Mismatches (name.source ++ ' ' :: more) := by
  rcases answers (keyword word) (name.source ++ ' ' :: more) with mismatch | ⟨found, rest, taken⟩
  · exact mismatch
  · obtain ⟨shape, -, c, tail, rfl, space⟩ := keyword_matched_iff.mp taken
    exact absurd (h.eq_bare nonempty chars shape space) other

/-- A label is read back before any text. -/
theorem label_quote {content : Text} (ends : content.sequencesEnd = true) (rest : Text) :
    label (content.quote ++ rest) = .matched content rest :=
  orElse_of_matched (quotedString_quote ends rest) _

/-- An equals sign between spaces is read, with the white space in front of the value. -/
theorem equals_append {value : Text} (notSpace : Text.Stops isWhitespace value) :
    equals (' ' :: '=' :: ' ' :: value) = .matched () value := by
  have sign : (do let _ ← char '='; notFollowedBy (char '=') : Rule Unit) ('=' :: ' ' :: value)
      = .matched () (' ' :: value) :=
    bind_matched_iff.mpr ⟨_, _, char_cons '=' _, notFollowedBy_matched_iff.mpr
      ⟨mismatches_char_iff.mpr (by simp), rfl⟩⟩
  have inline : Text.trimInline (' ' :: '=' :: ' ' :: value) = '=' :: ' ' :: value := by
    have blank : Text.isInline ' ' = true := by decide
    rw [Text.trimInline, List.dropWhile_cons_of_pos blank]
    exact Text.trimInline_of_stops ((Text.stops_cons ..).mpr (by decide))
  refine bind_matched_iff.mpr ⟨(), _, inlineWhitespace_apply _, bind_matched_iff.mpr ⟨(),
    ' ' :: value, ?_, ?_⟩⟩
  · rw [inline]
    exact orElse_of_matched sign _
  · rw [whitespace_apply, Text.trimStart_space, Text.trimStart_of_stops notSpace]

/-- A name and its equals sign are read, up to the value. -/
theorem propertyName_assignment {name : Name} (h : IsName name) (ends : NameEnds name)
    (value : Text) :
    propertyName (name.source ++ (' ' :: '=' :: ' ' :: value))
      = .matched name (' ' :: '=' :: ' ' :: value) :=
  propertyName_source h ends ((Text.stops_cons ..).mpr (by decide))

/-! ### Names of calls -/

/-- The characters of one part of the name of a call. -/
def isPartChar (c : Char) : Bool :=
  isAlphanumeric c || c == '_'

/-- The characters of the names of calls. -/
def isCallChar (c : Char) : Bool :=
  isAlphanumeric c || c == '_' || c == ':'

/-- One part of the name of a call. -/
def IsNamePart (part : Text) : Prop :=
  ∃ first others, part = first :: others ∧ isAlphabetic first = true
    ∧ ∀ c ∈ others, isPartChar c = true

/-- The name of a call is made of the characters of its parts and of colons. -/
theorem isCallChar_eq (c : Char) : isCallChar c = (isPartChar c || c == ':') := rfl

/-- A part of such a name is made of these characters. -/
theorem isCallChar_of_isNamePart {part : Text} (h : IsNamePart part) {c : Char} (hc : c ∈ part) :
    isCallChar c = true := by
  obtain ⟨first, others, rfl, letter, all⟩ := h
  rw [isCallChar_eq, Bool.or_eq_true]
  left
  rcases List.mem_cons.mp hc with rfl | hc
  · rw [isPartChar, isAlphanumeric_of_isAlphabetic letter, Bool.true_or]
  · exact all c hc

/-- The marks in the name of a call are visible. -/
theorem isWhitespace_of_isCallChar {c : Char} (h : isCallChar c = true) :
    isWhitespace c = false := by
  have word : isAlphanumeric c = true ∨ c ∈ ['_', ':'] := by
    simpa [isCallChar, or_assoc] using h
  exact isWhitespace_of_isAlphanumeric_or_mem (by decide) word

/-- A part of the name of a call takes all its characters that follow. -/
theorem functionNamePart_matched_iff {text part rest : Text} :
    functionNamePart text = .matched part rest
      ↔ text = part ++ rest ∧ IsNamePart part ∧ Text.Stops isPartChar rest := by
  simp only [functionNamePart, bind_matched_iff, charWhere_matched_iff, takeWhile_matched_iff,
    pure_matched_iff]
  constructor
  · rintro ⟨first, _, ⟨rfl, letter⟩, others, tail, ⟨rfl, all, stops⟩, rfl, rfl⟩
    exact ⟨rfl, ⟨first, others, rfl, letter, all⟩, stops⟩
  · rintro ⟨rfl, ⟨first, others, rfl, letter, all⟩, stops⟩
    exact ⟨first, others ++ rest, ⟨rfl, letter⟩, others, rest, ⟨rfl, all, stops⟩, rfl, rfl⟩

/-- A further part of the name of a call. -/
def furtherPart : Rule Text := do
  let colons ← word "::".toList
  let part ← functionNamePart
  return colons ++ part

/-- A further part is found again before any text that does not go on with it. -/
theorem furtherPart_looksAhead : furtherPart.LooksAhead isPartChar := by
  intro text piece rest h
  simp only [furtherPart, bind_matched_iff, word_matched_iff, functionNamePart_matched_iff,
    pure_matched_iff] at h
  obtain ⟨_, _, ⟨rfl, rfl⟩, part, tail, ⟨rfl, shape, stops⟩, rfl, rfl⟩ := h
  refine ⟨by simp, by simp, fun other follows => ?_⟩
  have otherStops := stops.follow follows
  simp only [furtherPart, bind_matched_iff, word_matched_iff, functionNamePart_matched_iff,
    pure_matched_iff]
  exact ⟨_, part ++ other, ⟨by simp, rfl⟩, part, other, ⟨rfl, shape, otherStops⟩, rfl, rfl⟩

/-- The name is one that the rule for the names of calls takes from some text. -/
def IsCallName (name : Text) : Prop :=
  ∃ text rest, functionName text = .matched name rest

/-- The name of a call is one part and then any number of further ones. -/
theorem functionName_eq :
    functionName = functionNamePart >>= fun first => many furtherPart >>= fun others =>
      pure (first ++ others.flatten) := rfl

/-- The characters of a piece of the name of a call. -/
theorem isCallChar_of_furtherParts {text rest : Text} {others : List Text}
    (h : many furtherPart text = .matched others rest) :
    ∀ c ∈ others.flatten, isCallChar c = true := by
  have each : ∀ piece ∈ others, ∀ c ∈ piece, isCallChar c = true :=
    forall_mem_of_many (fun {text piece rest} found c hc => by
      simp only [furtherPart, bind_matched_iff, word_matched_iff, functionNamePart_matched_iff,
        pure_matched_iff] at found
      obtain ⟨_, _, ⟨rfl, rfl⟩, part, tail, ⟨rfl, shape, stops⟩, rfl, rfl⟩ := found
      rcases List.mem_append.mp hc with hc | hc
      · have : c = ':' := by simpa using hc
        subst this
        decide
      · exact isCallChar_of_isNamePart shape hc) h
  intro c hc
  obtain ⟨piece, hpiece, hc⟩ := List.mem_flatten.mp hc
  exact each piece hpiece c hc

/-- The name of a call starts with a letter, has only characters of such names, and is taken whole
before a text that cannot go on with it. -/
theorem functionName_shape {text name rest : Text} (h : functionName text = .matched name rest) :
    text = name ++ rest
      ∧ (∃ first others, name = first :: others ∧ isAlphabetic first = true)
      ∧ (∀ c ∈ name, isCallChar c = true)
      ∧ ∀ other : Text, Text.Stops isCallChar other →
          functionName (name ++ other) = .matched name other := by
  rw [functionName_eq] at h
  simp only [bind_matched_iff, functionNamePart_matched_iff, pure_matched_iff] at h
  obtain ⟨part, _, ⟨rfl, shape, stops⟩, others, tail, more, rfl, rfl⟩ := h
  have chars := isCallChar_of_furtherParts more
  obtain ⟨rfl, repeats⟩ := furtherPart_looksAhead.many more
  refine ⟨by simp, ?_, ?_, fun other otherStops => ?_⟩
  · obtain ⟨first, rest, rfl, letter, -⟩ := shape
    exact ⟨first, _, rfl, letter⟩
  · intro c hc
    rcases List.mem_append.mp hc with hc | hc
    · exact isCallChar_of_isNamePart shape hc
    · exact chars c hc
  · have partStops : Text.Stops isPartChar other := by
      intro c hc
      have := otherStops c hc
      rw [isCallChar_eq] at this
      exact (Bool.or_eq_false_iff.mp this).1
    -- No further part follows, since it would start with a colon.
    have noMore : furtherPart.Mismatches other := by
      refine Mismatches.bind (mismatches_word_iff.mpr ?_) _
      rintro ⟨tail, rfl⟩
      have := otherStops ':' rfl
      revert this
      decide
    rw [functionName_eq]
    simp only [bind_matched_iff, functionNamePart_matched_iff, pure_matched_iff]
    refine ⟨part, others.flatten ++ other, ⟨by simp, shape, ?_⟩, others, other,
      repeats other partStops noMore, rfl, rfl⟩
    -- The first part ends where the next one starts, or where the name does.
    cases hothers : others.flatten with
    | nil => exact partStops
    | cons c cs =>
      rw [hothers] at stops
      exact stops

/-- The name of a call and its parenthesis are read back. -/
theorem callStart_append {name : Text} (h : IsCallName name) (tail : Text) :
    callStart (name ++ '(' :: tail) = .matched name tail := by
  obtain ⟨text, rest, h⟩ := h
  obtain ⟨-, -, -, again⟩ := functionName_shape h
  have found := again ('(' :: tail) ((Text.stops_cons ..).mpr (by decide))
  rw [callStart, bind_of_matched found, bind_of_matched (inlineWhitespace_apply _)]
  rfl

/-- What follows the letters at the front of a text that starts like a call. -/
theorem head_of_callStart {text name rest : Text} (h : callStart text = .matched name rest) :
    (Text.trimInline (text.dropWhile isCallChar)).head? = some '(' := by
  simp only [callStart, bind_matched_iff, char_matched_iff, pure_matched_iff,
    inlineWhitespace_apply, Reply.matched.injEq] at h
  obtain ⟨name, behind, found, _, _, ⟨-, rfl⟩, _, tail, ⟨starts, -⟩, rfl, rfl⟩ := h
  obtain ⟨rfl, -, chars, -⟩ := functionName_shape found
  -- The name was taken as far as it goes: behind it stands the parenthesis, perhaps after white
  -- space.
  have stops : Text.Stops isCallChar behind := by
    intro c hc
    rw [← Bool.not_eq_true]
    intro callChar
    have notSpace : Text.Stops Text.isInline behind := by
      intro d hd
      obtain rfl : c = d := Option.some.inj (hc.symm.trans hd)
      rw [Text.isInline, isWhitespace_of_isCallChar callChar, Bool.false_and]
    rw [Text.trimInline_of_stops notSpace] at starts
    subst starts
    obtain rfl : '(' = c := by simpa using hc
    revert callChar
    decide
  rw [Text.dropWhile_append_of_stops chars stops, starts]
  rfl

end HclSyntax.Grammar
