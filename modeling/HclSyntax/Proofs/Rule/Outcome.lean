import HclSyntax.Grammar.Rule
import Mathlib.Data.List.Infix
import Mathlib.Data.List.TakeWhile

/-!
# `HclSyntax.Proofs.Rule.Outcome`: how rules answer

Every proof about the grammar asks one of two things of a rule: when does it match, and when does it
step aside for the next alternative. For each combinator of `HclSyntax.Grammar.Rule` this module
states both as equivalences, so that a rule is taken apart by rewriting and is never unfolded
elsewhere:

* `*_matched_iff`: the rule matches with this value and this rest exactly when ...;
* `mismatches_*_iff`: the rule mismatches (`Rule.Mismatches`) exactly when ....

Most rules never commit (`Rule.Tentative`): they mismatch wherever they do not match. Rules that
differ at most in where they give up (`Rule.Alike`) cannot be told apart by a repetition.

`Text.Stops` says that a text does not go on with a character of a class. It is what a run of
characters needs of the text after it.
-/

set_option autoImplicit false

namespace HclSyntax

/-- What holds of all members of a list is decided by going through the list. The priority keeps
instance search from going through the whole type, which for characters is finite as well. -/
instance (priority := high) decidableForallMem {α : Type} (l : List α) (holds : α → Prop)
    [DecidablePred holds] : Decidable (∀ a ∈ l, holds a) :=
  List.decidableBAll holds l

namespace Text

/-- The text does not start with a character of the class. -/
def Stops (accepts : Char → Bool) (text : Text) : Prop :=
  ∀ c ∈ text.head?, accepts c = false

/-- At the end of the text every run stops. -/
@[simp]
theorem stops_nil (accepts : Char → Bool) : Stops accepts [] := by
  simp [Stops]

/-- A run stops at a character that it does not accept. -/
@[simp]
theorem stops_cons (accepts : Char → Bool) (c : Char) (text : Text) :
    Stops accepts (c :: text) ↔ accepts c = false := by
  simp [Stops]

/-- A text that does not start with a character of a class starts with none of a smaller one. -/
theorem Stops.mono {accepts smaller : Char → Bool} {text : Text} (h : Stops accepts text)
    (inside : ∀ c, smaller c = true → accepts c = true) : Stops smaller text := by
  intro c hc
  have outside := h c hc
  cases accepted : smaller c with
  | false => rfl
  | true => exact absurd (inside c accepted) (by simp [outside])

/-- A text at which a run stops does not start with a character of the run. -/
theorem Stops.head_ne {accepts : Char → Bool} {text : Text} (h : Stops accepts text) {c : Char}
    (accepted : accepts c = true) : text.head? ≠ some c := by
  intro head
  simp [h c head] at accepted

/-- What starts with a character of a class does not start with one outside it. -/
theorem head?_cons_ne {accepts : Char → Bool} {c d : Char} (accepted : accepts c = true)
    (outside : accepts d = false) (rest : Text) : List.head? (c :: rest) ≠ some d := by
  rintro same
  obtain rfl := Option.some.inj same
  simp [outside] at accepted

/-- What a class leaves of a text does not start with a character of the class. -/
theorem stops_dropWhile (accepts : Char → Bool) (text : Text) :
    Stops accepts (text.dropWhile accepts) := by
  induction text with
  | nil => simp
  | cons c rest ih =>
    cases h : accepts c with
    | true => simpa [h] using ih
    | false => simp [h]

/-- A run of a class is taken whole when the class stops after it. -/
theorem takeWhile_append_of_stops {accepts : Char → Bool} {run rest : Text}
    (all : ∀ c ∈ run, accepts c = true) (stops : Stops accepts rest) :
    (run ++ rest).takeWhile accepts = run := by
  rw [List.takeWhile_append_of_pos all]
  cases rest with
  | nil => simp
  | cons c rest => simp [(stops_cons ..).mp stops]

/-- A run of a class is dropped whole when the class stops after it. -/
theorem dropWhile_append_of_stops {accepts : Char → Bool} {run rest : Text}
    (all : ∀ c ∈ run, accepts c = true) (stops : Stops accepts rest) :
    (run ++ rest).dropWhile accepts = rest := by
  rw [List.dropWhile_append_of_pos all]
  cases rest with
  | nil => simp
  | cons c rest => simp [(stops_cons ..).mp stops]

/-- A text is cut in one way into a run of a class and what the class does not go on with. -/
theorem run_unique {accepts : Char → Bool} {first second more tail : Text}
    (firstAll : ∀ c ∈ first, accepts c = true) (secondAll : ∀ c ∈ second, accepts c = true)
    (moreStops : Stops accepts more) (tailStops : Stops accepts tail)
    (same : first ++ more = second ++ tail) : first = second ∧ more = tail := by
  obtain rfl : first = second := by
    rw [← takeWhile_append_of_stops firstAll moreStops, same,
      takeWhile_append_of_stops secondAll tailStops]
  exact ⟨rfl, List.append_cancel_left same⟩

/-- A text whose start is not of the class is left as it is. -/
theorem dropWhile_of_stops {accepts : Char → Bool} {text : Text} (stops : Stops accepts text) :
    text.dropWhile accepts = text := by
  have nothing : ∀ c ∈ ([] : Text), accepts c = true := by simp
  simpa using dropWhile_append_of_stops nothing stops

/-- White space that does not end a line. -/
def isInline (c : Char) : Bool :=
  isWhitespace c && c != '\n'

/-- What is left of a text after the white space at its start that does not end its line. -/
def trimInline (text : Text) : Text :=
  text.dropWhile isInline

/-- A text that starts with no white space is left as it is. -/
theorem trimStart_of_stops {text : Text} (stops : Stops isWhitespace text) :
    trimStart text = text :=
  dropWhile_of_stops stops

/-- Where no white space stands on the line there is none to skip. -/
theorem trimInline_of_stops {text : Text} (stops : Stops isInline text) :
    trimInline text = text :=
  dropWhile_of_stops stops

end Text

namespace Rule

variable {α β : Type} {text rest after : Text}

/-- The rule mismatches on the text, wherever it gives up. -/
def Mismatches (rule : Rule α) (text : Text) : Prop :=
  ∃ rest, rule text = .mismatch rest

/-- A rule that matches does not mismatch. -/
theorem not_mismatches_of_matched {rule : Rule α} {value : α}
    (h : rule text = .matched value rest) : ¬ rule.Mismatches text := by
  rintro ⟨place, hplace⟩
  simp [h] at hplace

/-! ### Sequence -/

/-- A sequence runs its second rule behind a match of the first, and ends with the first otherwise.
-/
theorem bind_apply (first : Rule α) (next : α → Rule β) (text : Text) :
    (first >>= next) text
      = match first text with
        | .matched value rest => next value rest
        | .mismatch rest => .mismatch rest
        | .committed rest fault => .committed rest fault := rfl

/-- A constant matches everywhere and takes nothing. -/
@[simp]
theorem pure_apply (value : α) (text : Text) :
    (pure value : Rule α) text = .matched value text := rfl

/-- After a rule that matches, the second one decides. -/
theorem bind_of_matched {first : Rule α} {next : α → Rule β} {value : α}
    (h : first text = .matched value rest) : (first >>= next) text = next value rest := by
  rw [bind_apply, h]

/-- A rule whose value is wrapped up. -/
theorem map_of_matched {rule : Rule α} {value : α} (h : rule text = .matched value rest)
    (wrap : α → β) : (do return wrap (← rule) : Rule β) text = .matched (wrap value) rest :=
  bind_of_matched h

/-- One rule after the other matches exactly when both do, the second on what the first leaves. -/
theorem bind_matched_iff {first : Rule α} {next : α → Rule β} {value : β} :
    (first >>= next) text = .matched value after
      ↔ ∃ found rest, first text = .matched found rest
          ∧ next found rest = .matched value after := by
  rw [bind_apply]
  cases first text <;> simp [and_assoc]

/-- A constant gives its value and leaves the whole text. -/
theorem pure_matched_iff {found value : α} :
    (pure found : Rule α) text = .matched value rest ↔ found = value ∧ text = rest := by
  simp

/-- One rule after the other mismatches exactly when the first does, or the second on what the first
leaves. -/
theorem mismatches_bind_iff {first : Rule α} {next : α → Rule β} :
    (first >>= next).Mismatches text
      ↔ first.Mismatches text
        ∨ ∃ value rest, first text = .matched value rest ∧ (next value).Mismatches rest := by
  unfold Mismatches
  rw [bind_apply]
  cases first text <;> simp [and_assoc]

/-- A constant never gives up. -/
@[simp]
theorem not_mismatches_pure (value : α) (text : Text) : ¬ (pure value : Rule α).Mismatches text := by
  simp [Mismatches]

/-- A rule that mismatches ends a sequence before it went on. -/
theorem Mismatches.bind {first : Rule α} (h : first.Mismatches text) (next : α → Rule β) :
    (first >>= next).Mismatches text :=
  mismatches_bind_iff.mpr (.inl h)

/-- A sequence mismatches where its second rule does. -/
theorem Mismatches.behind {first : Rule α} {next : α → Rule β} {value : α}
    (h : first text = .matched value rest) (hnext : (next value).Mismatches rest) :
    (first >>= next).Mismatches text :=
  mismatches_bind_iff.mpr (.inr ⟨value, rest, h, hnext⟩)

/-! ### Choice -/

/-- A choice asks its second rule exactly when the first mismatches. A fault in the first one stays.
-/
theorem orElse_apply (first second : Rule α) (text : Text) :
    (first <|> second) text
      = match first text with
        | .mismatch _ => second text
        | reply => reply := rfl

/-- The first alternative decides where it matches. -/
theorem orElse_of_matched {first : Rule α} {value : α} (h : first text = .matched value rest)
    (second : Rule α) : (first <|> second) text = .matched value rest := by
  rw [orElse_apply, h]

/-- The second alternative decides where the first mismatches. -/
theorem orElse_of_mismatches {first : Rule α} (h : first.Mismatches text) (second : Rule α) :
    (first <|> second) text = second text := by
  obtain ⟨place, hplace⟩ := h
  rw [orElse_apply, hplace]

/-- A choice matches exactly when the first alternative does, or when it mismatches and the second
matches. -/
theorem orElse_matched_iff {first second : Rule α} {value : α} :
    (first <|> second) text = .matched value rest
      ↔ first text = .matched value rest
        ∨ first.Mismatches text ∧ second text = .matched value rest := by
  unfold Mismatches
  rw [orElse_apply]
  cases first text <;> simp

/-- A choice mismatches exactly when both alternatives do. -/
theorem mismatches_orElse_iff {first second : Rule α} :
    (first <|> second).Mismatches text ↔ first.Mismatches text ∧ second.Mismatches text := by
  unfold Mismatches
  rw [orElse_apply]
  cases first text <;> simp

/-- The rule without alternatives mismatches everywhere. -/
@[simp]
theorem mismatches_fail (text : Text) : (fail : Rule α).Mismatches text :=
  ⟨text, rfl⟩

/-- The rule without alternatives never matches. -/
theorem fail_matched_iff {value : α} : (fail : Rule α) text = .matched value rest ↔ False := by
  simp [fail]

/-- The first alternative decides where it does not mismatch. -/
theorem orElse_of_not_mismatches {first : Rule α} (h : ¬ first.Mismatches text)
    (second : Rule α) : (first <|> second) text = first text := by
  rw [orElse_apply]
  cases found : first text with
  | mismatch place => exact absurd ⟨place, found⟩ h
  | matched | committed => rfl

/-! ### Looking ahead -/

/-- A rule that may be left out matches with what the rule gives, or with nothing where the rule
mismatches. -/
theorem optional_matched_iff {rule : Rule α} {found : Option α} :
    optional rule text = .matched found rest
      ↔ (∃ value, found = some value ∧ rule text = .matched value rest)
        ∨ found = none ∧ rule.Mismatches text ∧ text = rest := by
  unfold optional Mismatches
  cases rule text <;> simp [eq_comm]

/-- What may be left out is taken when it is there. -/
theorem optional_of_matched {rule : Rule α} {value : α} (h : rule text = .matched value rest) :
    optional rule text = .matched (some value) rest := by
  simp [optional, h]

/-- What may be left out is left out when it is not there, and then nothing is taken. -/
theorem optional_of_mismatches {rule : Rule α} (h : rule.Mismatches text) :
    optional rule text = .matched none text := by
  obtain ⟨place, hplace⟩ := h
  simp [optional, hplace]

/-- A look ahead matches where its rule would, and takes nothing. -/
theorem followedBy_matched_iff {rule : Rule α} {value : Unit} :
    followedBy rule text = .matched value rest
      ↔ (∃ found after, rule text = .matched found after) ∧ text = rest := by
  unfold followedBy
  cases rule text <;> simp

/-- A look ahead gives up where its rule does. -/
theorem mismatches_followedBy_iff {rule : Rule α} :
    (followedBy rule).Mismatches text ↔ rule.Mismatches text := by
  unfold followedBy Mismatches
  cases h : rule text <;> simp [h]

/-- A negative look ahead matches where its rule gives up, and takes nothing. -/
theorem notFollowedBy_matched_iff {rule : Rule α} {value : Unit} :
    notFollowedBy rule text = .matched value rest ↔ rule.Mismatches text ∧ text = rest := by
  unfold notFollowedBy Mismatches
  cases rule text <;> simp

/-- A negative look ahead gives up where its rule would match. -/
theorem mismatches_notFollowedBy_iff {rule : Rule α} :
    (notFollowedBy rule).Mismatches text ↔ ∃ value after, rule text = .matched value after := by
  unfold notFollowedBy Mismatches
  cases h : rule text <;> simp [h]

/-- A rule with a test matches where the rule does and the test accepts. -/
theorem suchThat_matched_iff {rule : Rule α} {accepts : α → Bool} {value : α} :
    rule.suchThat accepts text = .matched value rest
      ↔ rule text = .matched value rest ∧ accepts value = true := by
  unfold suchThat
  cases rule text with
  | matched found behind =>
    dsimp only
    constructor
    · intro h
      split at h
      · next accepted =>
        cases h
        exact ⟨rfl, accepted⟩
      · cases h
    · rintro ⟨same, accepted⟩
      cases same
      exact if_pos accepted
  | mismatch | committed => simp

/-- A test of the value finds nothing where the rule finds nothing. -/
theorem Mismatches.suchThat {rule : Rule α} (h : rule.Mismatches text) (accepts : α → Bool) :
    (rule.suchThat accepts).Mismatches text := by
  obtain ⟨place, gaveUp⟩ := h
  exact ⟨place, by rw [Rule.suchThat, gaveUp]⟩

/-- The text that is left is the value, and all of it is still left. -/
theorem remaining_matched_iff {found : Text} :
    remaining text = .matched found rest ↔ text = found ∧ text = rest := by
  simp [remaining]

/-! ### Characters and words -/

/-- One character of a class is taken if the text starts with one. -/
theorem charWhere_matched_iff {accepts : Char → Bool} {c : Char} :
    charWhere accepts text = .matched c rest ↔ text = c :: rest ∧ accepts c = true := by
  unfold charWhere
  cases text with
  | nil => simp
  | cons d tail =>
    by_cases h : accepts d = true
    · simp only [h, if_true, Reply.matched.injEq, List.cons.injEq]
      grind
    · simp only [h, Bool.false_eq_true, if_false, reduceCtorEq, List.cons.injEq, false_iff]
      grind

/-- A class of characters mismatches exactly where the text stops it. -/
theorem mismatches_charWhere_iff {accepts : Char → Bool} :
    (charWhere accepts).Mismatches text ↔ Text.Stops accepts text := by
  unfold charWhere Mismatches
  cases text with
  | nil => simp
  | cons c rest => by_cases h : accepts c = true <;> simp [h]

/-- A character of the class is taken from the front. -/
theorem charWhere_cons {accepts : Char → Bool} {c : Char} (h : accepts c = true) (rest : Text) :
    charWhere accepts (c :: rest) = .matched c rest :=
  charWhere_matched_iff.mpr ⟨rfl, h⟩

/-- A given character is taken if the text starts with it. -/
theorem char_matched_iff {expected c : Char} :
    char expected text = .matched c rest ↔ text = expected :: rest ∧ c = expected := by
  rw [char, charWhere_matched_iff]
  simp only [beq_iff_eq]
  grind

/-- A given character is taken from the front. -/
@[simp]
theorem char_cons (c : Char) (rest : Text) : char c (c :: rest) = .matched c rest :=
  char_matched_iff.mpr ⟨rfl, rfl⟩

/-- A character mismatches exactly where the text does not start with it. -/
theorem mismatches_char_iff {c : Char} :
    (char c).Mismatches text ↔ text.head? ≠ some c := by
  rw [char, mismatches_charWhere_iff]
  cases text <;> simp

/-- One of some characters is taken if the text starts with one of them. -/
theorem oneOf_matched_iff {choices : Text} {c : Char} :
    oneOf choices text = .matched c rest ↔ text = c :: rest ∧ c ∈ choices := by
  rw [oneOf, charWhere_matched_iff]
  simp

/-- None of some characters is found where the text starts with none of them. -/
theorem mismatches_oneOf_iff {choices : Text} :
    (oneOf choices).Mismatches text ↔ ∀ c ∈ text.head?, c ∉ choices := by
  rw [oneOf, mismatches_charWhere_iff]
  simp [Text.Stops]

/-- A word is taken if the text starts with it. -/
theorem word_matched_iff {expected found : Text} :
    word expected text = .matched found rest ↔ text = expected ++ rest ∧ found = expected := by
  unfold word
  cases h : expected.isPrefixOf? text with
  | none =>
    simp only [reduceCtorEq, false_iff]
    rintro ⟨rfl, -⟩
    have found : expected.isPrefixOf? (expected ++ rest) = some rest :=
      List.isPrefixOf?_eq_some_iff_append_eq.mpr rfl
    simp [found] at h
  | some tail =>
    rw [List.isPrefixOf?_eq_some_iff_append_eq] at h
    subst h
    simp only [Reply.matched.injEq, List.append_cancel_left_eq]
    grind

/-- A word is taken from the front of any text that starts with it. -/
@[simp]
theorem word_append (expected rest : Text) :
    word expected (expected ++ rest) = .matched expected rest :=
  word_matched_iff.mpr ⟨rfl, rfl⟩

/-- A word mismatches exactly where the text does not start with it. -/
theorem mismatches_word_iff {expected : Text} :
    (word expected).Mismatches text ↔ ¬ expected <+: text := by
  unfold word Mismatches
  cases h : expected.isPrefixOf? text with
  | none =>
    have apart : ¬ expected <+: text := by
      rintro ⟨tail, htail⟩
      simp [List.isPrefixOf?_eq_some_iff_append_eq.mpr htail] at h
    simp [h, apart]
  | some tail =>
    have starts : expected <+: text := ⟨tail, List.isPrefixOf?_eq_some_iff_append_eq.mp h⟩
    simp [h, starts]

/-! ### Runs of characters -/

/-- A run is the longest beginning of the text in the class. It may be empty. -/
theorem takeWhile_matched_iff {accepts : Char → Bool} {run : Text} :
    takeWhile accepts text = .matched run rest
      ↔ text = run ++ rest ∧ (∀ c ∈ run, accepts c = true) ∧ Text.Stops accepts rest := by
  unfold takeWhile
  simp only [Reply.matched.injEq]
  constructor
  · rintro ⟨rfl, rfl⟩
    exact ⟨List.takeWhile_append_dropWhile.symm,
      fun c hc => List.mem_takeWhile_imp hc, Text.stops_dropWhile accepts text⟩
  · rintro ⟨rfl, all, stops⟩
    exact ⟨Text.takeWhile_append_of_stops all stops, Text.dropWhile_append_of_stops all stops⟩

/-- A run with at least one character is the longest beginning of the text in the class. -/
theorem takeWhile1_matched_iff {accepts : Char → Bool} {run : Text} :
    takeWhile1 accepts text = .matched run rest
      ↔ text = run ++ rest ∧ run ≠ [] ∧ (∀ c ∈ run, accepts c = true)
          ∧ Text.Stops accepts rest := by
  -- The rule is the one for a run that may be empty, with a test that it is not.
  have whole : takeWhile accepts text = .matched run rest
      ↔ text = run ++ rest ∧ (∀ c ∈ run, accepts c = true) ∧ Text.Stops accepts rest :=
    takeWhile_matched_iff
  unfold takeWhile at whole
  unfold takeWhile1
  split
  · next empty =>
    simp only [reduceCtorEq, false_iff]
    rintro ⟨same, nonempty, all, stops⟩
    have := whole.mpr ⟨same, all, stops⟩
    simp only [Reply.matched.injEq] at this
    exact nonempty (this.1 ▸ List.isEmpty_iff.mp empty)
  · next nonempty =>
    rw [whole]
    constructor
    · rintro ⟨same, all, stops⟩
      have := whole.mpr ⟨same, all, stops⟩
      simp only [Reply.matched.injEq] at this
      exact ⟨same, fun none => nonempty (by rw [this.1, none]; rfl), all, stops⟩
    · rintro ⟨same, -, all, stops⟩
      exact ⟨same, all, stops⟩

/-- There is no run exactly where the first character is not in the class. -/
theorem mismatches_takeWhile1_iff {accepts : Char → Bool} :
    (takeWhile1 accepts).Mismatches text ↔ Text.Stops accepts text := by
  unfold takeWhile1 Mismatches
  cases text with
  | nil => simp
  | cons c rest => by_cases h : accepts c = true <;> simp [h]

/-- White space is skipped whether there is any or not. -/
@[simp]
theorem whitespace_apply (text : Text) :
    whitespace text = .matched () text.trimStart := rfl

/-- Behind white space the text goes on with its first visible character. -/
theorem whitespace_matched_iff {value : Unit} :
    whitespace text = .matched value rest ↔ text.trimStart = rest := by
  simp

/-- White space on the line is skipped whether there is any or not. -/
@[simp]
theorem inlineWhitespace_apply (text : Text) :
    inlineWhitespace text = .matched () text.trimInline := rfl

/-- The text is at its end exactly when nothing is left of it. -/
theorem mismatches_endOfText_iff : endOfText.Mismatches text ↔ text ≠ [] := by
  unfold endOfText Mismatches
  cases text <;> simp

/-- A keyword needs white space behind its word, which it does not take. -/
theorem keyword_matched_iff {expected found : Text} :
    keyword expected text = .matched found rest
      ↔ text = expected ++ rest ∧ found = expected ∧ ∃ c tail, rest = c :: tail
          ∧ isWhitespace c = true := by
  simp only [keyword, bind_matched_iff, word_matched_iff, followedBy_matched_iff,
    charWhere_matched_iff, pure_matched_iff]
  grind

/-! ### Repetition -/

/-- A repetition ends where its rule mismatches. -/
theorem many_of_mismatches {rule : Rule α} (h : rule.Mismatches text) :
    many rule text = .matched [] text := by
  obtain ⟨place, hplace⟩ := h
  rw [many, hplace]

/-- A repetition goes on behind a match that took something. -/
theorem many_of_matched {rule : Rule α} {value : α} {values : List α}
    (h : rule text = .matched value rest) (shorter : rest.length < text.length)
    (more : many rule rest = .matched values after) :
    many rule text = .matched (value :: values) after := by
  rw [many, h]
  simp [shorter, more]

/-- A repetition matches exactly when its rule mismatches at once, or matches, takes something and
is repeated. -/
theorem many_matched_iff {rule : Rule α} {values : List α} :
    many rule text = .matched values after
      ↔ (rule.Mismatches text ∧ values = [] ∧ text = after)
        ∨ ∃ value others rest, rule text = .matched value rest ∧ rest.length < text.length
            ∧ many rule rest = .matched others after ∧ values = value :: others := by
  rw [many]
  unfold Mismatches
  cases h : rule text with
  | mismatch place => simp [eq_comm]
  | committed place fault => simp
  | matched value rest =>
    -- Behind a match that takes nothing the repetition mismatches, whatever follows.
    by_cases shorter : rest.length < text.length
    · simp only [shorter, if_true, reduceCtorEq, exists_false, false_and, false_or]
      cases hmore : many rule rest <;> grind
    · simp only [shorter, if_false, reduceCtorEq, exists_false, false_and, false_or]
      grind

/-- What is to be shown of the matches of a repetition is shown where the repetition ends, and of an
element where it is known behind the element. -/
@[elab_as_elim]
theorem many_induction {rule : Rule α}
    {motive : ∀ text values, many rule text = .matched values after → Prop}
    (ends : ∀ mismatches : rule.Mismatches after, motive after [] (many_of_mismatches mismatches))
    (element : ∀ {text rest value values} (found : rule text = .matched value rest)
      (shorter : rest.length < text.length) (more : many rule rest = .matched values after),
      motive rest values more → motive text (value :: values) (many_of_matched found shorter more))
    {text : Text} {values : List α} (h : many rule text = .matched values after) :
    motive text values h := by
  induction values generalizing text with
  | nil =>
    rcases many_matched_iff.mp h with ⟨mismatches, -, rfl⟩ | ⟨_, _, _, -, -, -, same⟩
    · exact ends mismatches
    · cases same
  | cons value others ih =>
    rcases many_matched_iff.mp h with ⟨-, same, -⟩ | ⟨_, _, rest, found, shorter, more, same⟩
    · cases same
    · cases same
      exact element found shorter more (ih more)

/-- Where a repetition ends its rule mismatches. -/
theorem mismatches_of_many {rule : Rule α} {values : List α}
    (h : many rule text = .matched values after) : rule.Mismatches after := by
  induction h using many_induction with
  | ends mismatches => exact mismatches
  | element _ _ _ ih => exact ih

/-- What every match of a rule gives, every member of its repetition has. -/
theorem forall_mem_of_many {rule : Rule α} {holds : α → Prop}
    (each : ∀ {text value rest}, rule text = .matched value rest → holds value)
    {values : List α} (h : many rule text = .matched values after) :
    ∀ value ∈ values, holds value := by
  induction h using many_induction with
  | ends => simp
  | element found _ _ ih => exact List.forall_mem_cons.mpr ⟨each found, ih⟩

/-! ### Rules that differ in where they give up -/

/-- The rules answer alike, except perhaps for where they give up. -/
def Alike (first second : Rule α) : Prop :=
  ∀ text, first text = second text ∨ first.Mismatches text ∧ second.Mismatches text

/-- Rules that answer alike do so in front of any other rule. -/
theorem Alike.bind {first second : Rule α} (h : Alike first second) (next : α → Rule β) :
    Alike (first >>= next) (second >>= next) := by
  intro text
  rcases h text with same | ⟨one, other⟩
  · exact .inl (by rw [bind_apply, bind_apply, same])
  · exact .inr ⟨one.bind next, other.bind next⟩

/-- Rules that answer alike do so behind any other rule. -/
theorem Alike.behind {first second : Rule β} (h : Alike first second) (front : Rule α) :
    Alike (front >>= fun _ => first) (front >>= fun _ => second) := by
  intro text
  rw [bind_apply, bind_apply]
  cases taken : front text with
  | mismatch place => exact .inl rfl
  | committed place fault => exact .inl rfl
  | matched value rest =>
    rcases h rest with same | ⟨one, other⟩
    · exact .inl same
    · exact .inr ⟨one.behind taken, other.behind taken⟩

/-- Rules that answer alike do so as second choices. -/
theorem Alike.orElse {first second : Rule α} (h : Alike first second) (front : Rule α) :
    Alike (front <|> first) (front <|> second) := by
  intro text
  by_cases mismatch : front.Mismatches text
  · rw [orElse_of_mismatches mismatch, orElse_of_mismatches mismatch]
    rcases h text with same | ⟨one, other⟩
    · exact .inl same
    · exact .inr ⟨mismatches_orElse_iff.mpr ⟨mismatch, one⟩,
        mismatches_orElse_iff.mpr ⟨mismatch, other⟩⟩
  · rw [orElse_of_not_mismatches mismatch, orElse_of_not_mismatches mismatch]
    exact .inl rfl

/-- Where its rule gives up is nothing to a repetition. -/
theorem Alike.many {first second : Rule α} (h : Alike first second) :
    many first = many second := by
  funext text
  induction length : text.length using Nat.strongRecOn generalizing text with
  | _ n ih =>
    rcases h text with same | ⟨one, other⟩
    · rw [many.eq_def first, many.eq_def second, same]
      cases second text with
      | mismatch place => rfl
      | committed place fault => rfl
      | matched value rest =>
        by_cases shorter : rest.length < text.length
        · simp only [shorter, if_true, ih _ (length ▸ shorter) rest rfl]
        · simp only [shorter, if_false]
    · rw [many_of_mismatches one, many_of_mismatches other]

/-! ### Rules that never commit -/

/-- A rule that matches or steps aside on every text. -/
class Tentative (rule : Rule α) : Prop where
  answers : ∀ text, rule.Mismatches text ∨ ∃ value rest, rule text = .matched value rest

/-- A rule that never commits either gives up or matches. -/
theorem answers (rule : Rule α) [Tentative rule] (text : Text) :
    rule.Mismatches text ∨ ∃ value rest, rule text = .matched value rest :=
  Tentative.answers text

instance (value : α) : Tentative (pure value : Rule α) :=
  ⟨fun text => .inr ⟨value, text, rfl⟩⟩

instance {first : Rule α} {next : α → Rule β} [hfirst : Tentative first]
    [hnext : ∀ value, Tentative (next value)] : Tentative (first >>= next) where
  answers text := by
    rcases hfirst.answers text with mismatch | ⟨value, rest, matched⟩
    · exact .inl (mismatch.bind next)
    · rcases (hnext value).answers rest with mismatch | ⟨found, behind, further⟩
      · exact .inl (mismatch.behind matched)
      · exact .inr ⟨found, behind, bind_matched_iff.mpr ⟨value, rest, matched, further⟩⟩

instance {first second : Rule α} [hfirst : Tentative first] [hsecond : Tentative second] :
    Tentative (first <|> second) where
  answers text := by
    rcases hfirst.answers text with mismatch | ⟨value, rest, matched⟩
    · rcases hsecond.answers text with other | ⟨value, rest, matched⟩
      · exact .inl (mismatches_orElse_iff.mpr ⟨mismatch, other⟩)
      · exact .inr ⟨value, rest, orElse_matched_iff.mpr (.inr ⟨mismatch, matched⟩)⟩
    · exact .inr ⟨value, rest, orElse_of_matched matched _⟩

instance : Tentative (fail : Rule α) :=
  ⟨fun text => .inl (mismatches_fail text)⟩

instance {rule : Rule α} [h : Tentative rule] : Tentative (optional rule) where
  answers text := by
    rcases h.answers text with mismatch | ⟨value, rest, matched⟩
    · exact .inr ⟨none, text, optional_of_mismatches mismatch⟩
    · exact .inr ⟨some value, rest, optional_of_matched matched⟩

instance {rule : Rule α} [h : Tentative rule] : Tentative (notFollowedBy rule) where
  answers text := by
    rcases h.answers text with mismatch | matched
    · exact .inr ⟨(), text, notFollowedBy_matched_iff.mpr ⟨mismatch, rfl⟩⟩
    · exact .inl (mismatches_notFollowedBy_iff.mpr matched)

instance {rule : Rule α} [h : Tentative rule] : Tentative (followedBy rule) where
  answers text := by
    rcases h.answers text with mismatch | matched
    · exact .inl (mismatches_followedBy_iff.mpr mismatch)
    · exact .inr ⟨(), text, followedBy_matched_iff.mpr ⟨matched, rfl⟩⟩

instance {rule : Rule α} [h : Tentative rule] (accepts : α → Bool) :
    Tentative (rule.suchThat accepts) where
  answers text := by
    rcases h.answers text with mismatch | ⟨value, rest, matched⟩
    · exact .inl (mismatch.suchThat accepts)
    · cases accepted : accepts value with
      | true => exact .inr ⟨value, rest, suchThat_matched_iff.mpr ⟨matched, accepted⟩⟩
      | false => exact .inl ⟨text, by simp [suchThat, matched, accepted]⟩

instance (accepts : Char → Bool) : Tentative (charWhere accepts) where
  answers
    | [] => .inl ⟨[], rfl⟩
    | c :: rest => by
      cases h : accepts c with
      | true => exact .inr ⟨c, rest, charWhere_cons h rest⟩
      | false => exact .inl (mismatches_charWhere_iff.mpr ((Text.stops_cons ..).mpr h))

instance (c : Char) : Tentative (char c) :=
  inferInstanceAs (Tentative (charWhere _))

instance (choices : Text) : Tentative (oneOf choices) :=
  inferInstanceAs (Tentative (charWhere _))

instance (expected : Text) : Tentative (word expected) where
  answers text := by
    rw [mismatches_word_iff]
    by_cases h : expected <+: text
    · obtain ⟨rest, rfl⟩ := h
      exact .inr ⟨expected, rest, word_append expected rest⟩
    · exact .inl h

instance (accepts : Char → Bool) : Tentative (takeWhile accepts) :=
  ⟨fun _ => .inr ⟨_, _, rfl⟩⟩

instance (accepts : Char → Bool) : Tentative (takeWhile1 accepts) where
  answers text := by
    rw [mismatches_takeWhile1_iff]
    by_cases stops : Text.Stops accepts text
    · exact .inl stops
    · refine .inr ⟨text.takeWhile accepts, text.dropWhile accepts, takeWhile1_matched_iff.mpr
        ⟨List.takeWhile_append_dropWhile.symm, fun empty => stops ?_,
          fun _ hc => List.mem_takeWhile_imp hc, Text.stops_dropWhile _ _⟩⟩
      have whole := List.takeWhile_append_dropWhile (p := accepts) (l := text)
      rw [empty, List.nil_append] at whole
      exact whole ▸ Text.stops_dropWhile accepts text

instance {rule : Rule α} [h : Tentative rule] : Tentative (many rule) where
  answers text := by
    induction length : text.length using Nat.strongRecOn generalizing text with
    | _ n ih =>
      rcases h.answers text with mismatch | ⟨value, rest, matched⟩
      · exact .inr ⟨[], text, many_of_mismatches mismatch⟩
      · rw [Mismatches]
        simp only [many.eq_def rule text, matched]
        split
        · next shorter =>
          rcases ih _ (length ▸ shorter) rest rfl with ⟨after, gaveUp⟩ | ⟨values, after, more⟩
          · exact .inl ⟨after, by rw [gaveUp]⟩
          · exact .inr ⟨value :: values, after, by rw [more]⟩
        · exact .inl ⟨rest, rfl⟩

instance {rule : Rule α} [Tentative rule] : Tentative (many1 rule) := by
  unfold many1
  infer_instance

instance (expected : Text) : Tentative (keyword expected) := by
  unfold keyword
  infer_instance

instance : Tentative endOfText where
  answers text := by
    cases text with
    | nil => exact .inr ⟨(), [], rfl⟩
    | cons c rest => exact .inl ⟨c :: rest, rfl⟩

instance : Tentative inlineWhitespace :=
  ⟨fun _ => .inr ⟨_, _, rfl⟩⟩

instance : Tentative whitespace :=
  ⟨fun _ => .inr ⟨_, _, rfl⟩⟩

end Rule

end HclSyntax
