import HclSyntax.Grammar.Literal
import HclSyntax.Proofs.Rule.Outcome
import HclSyntax.Proofs.Text.Closing

/-!
# `HclSyntax.Proofs.Text.Quoting`: a quoted text is read back

Escaping never changes where template sequences start and end, whether they end or not
(`segments_escape`), so unescaping undoes it for every text (`unescape_escape`).

Between quotes one thing more counts. A content whose template sequences all end
(`Text.sequencesEnd`) survives quoting: before any other text, the rule for quoted strings takes
exactly the quotes and what is between them, and gives the content back (`quotedString_quote`). A
content with a sequence that never ends does not: once it is quoted, the closing quote belongs to the
sequence (`length_lt_of_close_escape`).

What carries both is that escaped text closes no string (`close_flatMap_escapeChar`): a sequence that
never ends can only run into a string that it opens itself, and that string stays open through
everything that is escaped.
-/

set_option autoImplicit false

namespace HclSyntax

namespace Text

/-- Whether every template sequence of a content ends. -/
def sequencesEnd (content : Text) : Bool :=
  match content with
  | [] => true
  | [_] => true
  | c :: d :: rest =>
    if isTemplateMark c && d = c then sequencesEnd rest
    else if isTemplateMark c && d = '{' then
      match h : close [.template 0] rest with
      | some (_, after) =>
        have : after.length ≤ rest.length := by rw [← close_append h]; simp
        sequencesEnd after
      | none => false
    else sequencesEnd (d :: rest)
termination_by content.length

/-- Behind a sequence that ends the content goes on. -/
theorem sequencesEnd_template {c d : Char} {rest span after : Text}
    (single : ¬ (isTemplateMark c && d = c) = true) (opens : (isTemplateMark c && d = '{') = true)
    (closes : close [.template 0] rest = some (span, after)) :
    sequencesEnd (c :: d :: rest) = sequencesEnd after := by
  rw [sequencesEnd, if_neg single, if_pos opens]
  split
  · next inside behind found =>
    rw [closes, Option.some.injEq, Prod.mk.injEq] at found
    obtain ⟨rfl, rfl⟩ := found
    rfl
  · next found => simp [closes] at found

/-! ### Escaping -/

/-- A character is escaped by a backslash and a letter, or stands for itself and is neither a quote
nor a backslash. -/
theorem escapeChar_cases (c : Char) :
    (∃ letter, namedEscapes.lookup c = some letter ∧ escapeChar c = ['\\', letter])
      ∨ c ≠ '"' ∧ c ≠ '\\' ∧ escapeChar c = [c] := by
  unfold escapeChar
  cases h : namedEscapes.lookup c with
  | some letter => exact .inl ⟨letter, rfl, rfl⟩
  | none =>
    -- A quote and a backslash are both in the table of named escapes.
    refine .inr ⟨?_, ?_, rfl⟩ <;> rintro rfl <;> simp [namedEscapes, List.lookup_cons] at h

/-- Two characters start template sequences. -/
theorem isTemplateMark_iff {c : Char} : isTemplateMark c = true ↔ c = '$' ∨ c = '%' := by
  simp [isTemplateMark]

/-- A template mark has no meaning of its own in a string. -/
theorem apart_of_isTemplateMark {c : Char} (h : isTemplateMark c = true) : c ≠ '"' ∧ c ≠ '\\' := by
  rcases isTemplateMark_iff.mp h with rfl | rfl <;> decide

/-- A template mark stands for itself. -/
theorem escapeChar_of_isTemplateMark {c : Char} (h : isTemplateMark c = true) :
    escapeChar c = [c] := by
  rcases isTemplateMark_iff.mp h with rfl | rfl <;> rfl

/-- A segment as it is written between quotes. -/
def segmentSource : Segment → Text
  | .plain text => text.flatMap escapeChar
  | .template text => text

/-- A content is escaped segment by segment. -/
theorem escape_eq_flatMap (content : Text) :
    escape content = (segments false content).flatMap segmentSource := by
  unfold escape
  congr 1

/-- Plain characters put in front of segments are escaped like others. -/
theorem flatMap_prependPlain (text : Text) (pieces : List Segment) :
    (prependPlain text pieces).flatMap segmentSource
      = text.flatMap escapeChar ++ pieces.flatMap segmentSource := by
  cases pieces with
  | nil => simp [prependPlain, segmentSource]
  | cons piece others => cases piece <;> simp [prependPlain, segmentSource]

section Escape
variable {c d : Char} {rest : Text}

/-- The empty content is escaped as nothing. -/
@[simp]
theorem escape_nil : escape [] = [] := by
  simp [escape, segments]

/-- A single character is escaped by itself. -/
@[simp]
theorem escape_singleton (c : Char) : escape [c] = escapeChar c := by
  simp [escape, segments]

/-- A doubled mark is kept. -/
theorem escape_pair (pair : (isTemplateMark c && d = c) = true) :
    escape (c :: d :: rest) = c :: d :: escape rest := by
  obtain ⟨mark, same⟩ := Bool.and_eq_true_iff.mp pair
  obtain rfl := of_decide_eq_true same
  rw [escape_eq_flatMap, segments, if_pos (by simpa using mark), flatMap_prependPlain,
    escape_eq_flatMap]
  simp [escapeChar_of_isTemplateMark mark]

/-- A template sequence is a segment of its own. -/
theorem segments_template {raw : Bool} {span after : Text}
    (single : ¬ ((raw && c = '\\') || (isTemplateMark c && d = c)) = true)
    (opens : (isTemplateMark c && d = '{') = true)
    (closes : close [.template 0] rest = some (span, after)) :
    segments raw (c :: d :: rest) = .template (c :: d :: span) :: segments raw after := by
  rw [segments, if_neg single, if_pos opens]
  split
  · next inside behind found =>
    rw [closes, Option.some.injEq, Prod.mk.injEq] at found
    obtain ⟨rfl, rfl⟩ := found
    rfl
  · next found => simp [closes] at found

/-- A template sequence is kept. -/
theorem escape_template {span after : Text} (single : ¬ (isTemplateMark c && d = c) = true)
    (opens : (isTemplateMark c && d = '{') = true)
    (closes : close [.template 0] rest = some (span, after)) :
    escape (c :: d :: rest) = c :: d :: span ++ escape after := by
  rw [escape_eq_flatMap, segments_template (by simpa using single) opens closes,
    List.flatMap_cons, segmentSource, escape_eq_flatMap]

/-- From a sequence that never ends on everything is plain. -/
theorem segments_unended {raw : Bool}
    (single : ¬ ((raw && c = '\\') || (isTemplateMark c && d = c)) = true)
    (opens : (isTemplateMark c && d = '{') = true) (unended : close [.template 0] rest = none) :
    segments raw (c :: d :: rest) = [.plain (c :: d :: rest)] := by
  rw [segments, if_neg single, if_pos opens]
  split
  · next found => simp [unended] at found
  · rfl

/-- Behind a sequence that never ends everything is escaped. -/
theorem escape_unended (single : ¬ (isTemplateMark c && d = c) = true)
    (opens : (isTemplateMark c && d = '{') = true) (unended : close [.template 0] rest = none) :
    escape (c :: d :: rest) = escapeChar c ++ (d :: rest).flatMap escapeChar := by
  rw [escape_eq_flatMap, segments_unended (by simpa using single) opens unended]
  simp [segmentSource]

/-- Any other character is escaped. -/
theorem escape_plain (single : ¬ (isTemplateMark c && d = c) = true)
    (plain : ¬ (isTemplateMark c && d = '{') = true) :
    escape (c :: d :: rest) = escapeChar c ++ escape (d :: rest) := by
  rw [escape_eq_flatMap, segments, if_neg (by simpa using single), if_neg plain,
    flatMap_prependPlain, escape_eq_flatMap]
  simp

end Escape

/-- An escaped character starts with the character or with a backslash. -/
theorem escapeChar_append (d : Char) (more : Text) :
    ∃ e tail, escapeChar d ++ more = e :: tail ∧ (e = d ∨ e = '\\') := by
  rcases escapeChar_cases d with ⟨letter, -, same⟩ | ⟨-, -, same⟩
  · exact ⟨'\\', letter :: more, by rw [same]; rfl, .inr rfl⟩
  · exact ⟨d, more, by rw [same]; rfl, .inl rfl⟩

/-- What is escaped starts with the first character of the content or with a backslash. -/
theorem escape_cons (d : Char) (rest : Text) :
    ∃ e tail, escape (d :: rest) = e :: tail ∧ (e = d ∨ e = '\\') := by
  cases rest with
  | nil => simpa using escapeChar_append d []
  | cons f rest =>
    by_cases pair : (isTemplateMark d && f = d) = true
    · exact ⟨d, _, escape_pair pair, .inl rfl⟩
    · by_cases opens : (isTemplateMark d && f = '{') = true
      · cases closes : close [.template 0] rest with
        | none =>
          rw [escape_unended pair opens closes]
          exact escapeChar_append d _
        | some found => exact ⟨d, _, escape_template pair opens closes, .inl rfl⟩
      · rw [escape_plain pair opens]
        exact escapeChar_append d _

/-- Neither a quote nor a backslash makes a mark doubled or the start of a sequence. -/
theorem mark_apart {c e : Char} (mark : isTemplateMark c = true) (h : e = '"' ∨ e = '\\') :
    e ≠ c ∧ e ≠ '{' := by
  rcases isTemplateMark_iff.mp mark with rfl | rfl <;> rcases h with rfl | rfl <;> decide

/-- An escaped character goes into the string that is open, unless what follows makes it a doubled
mark or the start of a sequence. -/
theorem close_escapeChar {c : Char} {outer : List Opening} {more : Text}
    (apart : ∀ e tail, more = e :: tail →
      ¬ (isTemplateMark c && e = c) = true ∧ ¬ (isTemplateMark c && e = '{') = true) :
    close (.quote :: outer) (escapeChar c ++ more)
      = (close (.quote :: outer) more).map fun (span, after) => (escapeChar c ++ span, after) := by
  rcases escapeChar_cases c with ⟨letter, -, same⟩ | ⟨notQuote, notBackslash, same⟩
  · rw [same]
    exact close_quote_pair (by decide) (by simp)
  · rw [same]
    cases more with
    | nil => simp [close, notQuote]
    | cons e tail =>
      obtain ⟨single, plain⟩ := apart e tail rfl
      exact close_quote_plain notQuote (by simpa [notBackslash] using single) plain

/-- What is escaped closes a string together with the quote after it. -/
theorem close_escape {content : Text} (ends : sequencesEnd content = true) (more : Text) :
    close [.quote] (escape content ++ '"' :: more) = some (escape content ++ ['"'], more) := by
  have quote : close [.quote] ('"' :: more) = some (['"'], more) := by
    simp [close_quote_end, close]
  fun_induction sequencesEnd content with
  | case1 => simpa using quote
  | case2 c =>
    -- A single character: only the closing quote follows it, which no mark goes with.
    have := mark_apart (c := c) (e := '"')
    rw [escape_singleton, close_escapeChar (by grind), quote, Option.map_some]
  | case3 c d rest pair ih =>
    have mark : isTemplateMark c = true := (Bool.and_eq_true_iff.mp pair).1
    rw [escape_pair pair, List.cons_append, List.cons_append,
      close_quote_pair (apart_of_isTemplateMark mark).1 (by simp [pair]), ih ends, Option.map_some]
    rfl
  | case4 c d rest single opens span after closes shorter ih =>
    have mark : isTemplateMark c = true := (Bool.and_eq_true_iff.mp opens).1
    obtain ⟨notQuote, notBackslash⟩ := apart_of_isTemplateMark mark
    rw [escape_template single opens closes, List.append_assoc, List.cons_append, List.cons_append,
      close_quote_template notQuote (by simpa [notBackslash] using single) opens]
    -- The sequence closes as it did in the content, with the string still open around it.
    have inside := close_append_of_close closes [.quote] (escape after ++ '"' :: more)
    rw [List.singleton_append] at inside
    rw [inside, ih ends]
    simp
  | case5 => cases ends
  | case6 c d rest single plain ih =>
    -- What follows the character may be escaped, so it may now start with a backslash instead.
    obtain ⟨e, tail, same, first⟩ := escape_cons d rest
    have := mark_apart (c := c) (e := e)
    rw [escape_plain single plain, List.append_assoc, same, List.cons_append,
      close_escapeChar (by grind), ← List.cons_append, ← same, ih ends, Option.map_some,
      List.append_assoc]

/-! ### Sequences that never end -/

/-- No letter of an escape and no character that has one is a brace, and only the quote is written
with a quote. -/
theorem lookup_namedEscapes {c letter : Char} (h : namedEscapes.lookup c = some letter) :
    c ≠ '{' ∧ c ≠ '}' ∧ letter ≠ '{' ∧ letter ≠ '}' ∧ (letter = '"' ↔ c = '"') := by
  have all : ∀ pair ∈ namedEscapes, pair.1 ≠ '{' ∧ pair.1 ≠ '}' ∧ pair.2 ≠ '{' ∧ pair.2 ≠ '}'
      ∧ (pair.2 = '"' ↔ pair.1 = '"') := by decide
  obtain ⟨before, after, split, -⟩ := List.lookup_eq_some_iff.mp h
  exact all (c, letter) (by simp [split])

/-- Inside a sequence an escaped character opens and closes what the character itself does. -/
theorem close_template_escapeChar (c : Char) (braces : Nat) (outer : List Opening) (more : Text) :
    close (.template braces :: outer) (escapeChar c ++ more)
      = (close (afterTemplateChar c braces outer) more).map
          fun (span, after) => (escapeChar c ++ span, after) := by
  rcases escapeChar_cases c with ⟨letter, named, same⟩ | ⟨-, -, same⟩
  · -- The backslash opens and closes nothing, and the letter does what the character does.
    have backslash : afterTemplateChar '\\' braces outer = .template braces :: outer := rfl
    have letters : afterTemplateChar letter braces outer = afterTemplateChar c braces outer := by
      have := lookup_namedEscapes named
      unfold afterTemplateChar
      grind
    rw [same, List.cons_append, close_template, backslash, List.singleton_append, close_template,
      letters, Option.map_map]
    rfl
  · rw [same, List.singleton_append, close_template]
    rfl

section Open
variable {more : Text} (quote : ∀ e tail, more = e :: tail → e = '"')
include quote

/-- What is escaped closes no string: a string around everything that is open is still open after
it, whatever has been opened inside, before a quote and at the end of a text. -/
theorem close_flatMap_escapeChar {opened : List Opening} (string : closing? opened = some '"')
    (outer : List Opening) (text : Text) :
    ∃ still : List Opening, closing? still = some '"'
      ∧ close (opened ++ outer) (text.flatMap escapeChar ++ more)
        = (close (still ++ outer) more).map
            fun (span, after) => (text.flatMap escapeChar ++ span, after) := by
  -- In a template sequence characters are taken one by one, in a string up to two at a time.
  match opened, text with
  | opened, [] => exact ⟨opened, string, by simp⟩
  | .template braces :: inner, c :: rest =>
    obtain ⟨still, last, same⟩ :=
      close_flatMap_escapeChar (closing?_afterTemplateChar_of_quote string) outer rest
    refine ⟨still, last, ?_⟩
    rw [List.flatMap_cons, List.append_assoc, List.cons_append, close_template_escapeChar,
      afterTemplateChar_append, same, Option.map_map]
    simp [Function.comp_def]
  | .quote :: inner, [c] =>
    have := mark_apart (c := c) (e := '"')
    refine ⟨.quote :: inner, string, ?_⟩
    rw [List.flatMap_singleton, List.cons_append, close_escapeChar (by grind)]
  | .quote :: inner, c :: d :: rest =>
    -- Two marks in a row are kept as a pair, and a mark in front of a brace opens a sequence.
    by_cases pair : (isTemplateMark c && d = c) = true
    · obtain ⟨mark, rfl⟩ : isTemplateMark c = true ∧ d = c := by simpa using pair
      obtain ⟨still, last, same⟩ := close_flatMap_escapeChar string outer rest
      refine ⟨still, last, ?_⟩
      rw [List.cons_append] at same
      simp only [List.flatMap_cons, escapeChar_of_isTemplateMark mark, List.cons_append,
        List.nil_append]
      rw [close_quote_pair (apart_of_isTemplateMark mark).1 (by simp [mark]), same, Option.map_map]
      rfl
    · by_cases opens : (isTemplateMark c && d = '{') = true
      · obtain ⟨mark, rfl⟩ : isTemplateMark c = true ∧ d = '{' := by simpa using opens
        have deeper : closing? (.template 0 :: .quote :: inner) = some '"' := by
          rwa [closing?_cons_cons]
        obtain ⟨still, last, same⟩ := close_flatMap_escapeChar deeper outer rest
        refine ⟨still, last, ?_⟩
        rw [List.cons_append, List.cons_append] at same
        have brace : escapeChar '{' = ['{'] := rfl
        obtain ⟨notQuote, notBackslash⟩ := apart_of_isTemplateMark mark
        simp only [List.flatMap_cons, escapeChar_of_isTemplateMark mark, brace, List.cons_append,
          List.nil_append]
        rw [close_quote_template notQuote (by simpa [notBackslash] using pair) opens, same,
          Option.map_map]
        rfl
      · obtain ⟨still, last, same⟩ := close_flatMap_escapeChar string outer (d :: rest)
        obtain ⟨e, tail, start, first⟩ :=
          escapeChar_append d (rest.flatMap escapeChar ++ more)
        have := mark_apart (c := c) (e := e)
        refine ⟨still, last, ?_⟩
        rw [List.cons_append] at same
        rw [List.flatMap_cons, List.append_assoc, List.cons_append, close_escapeChar ?_, same,
          Option.map_map]
        · simp [Function.comp_def]
        · rw [List.flatMap_cons, List.append_assoc, start]
          grind

/-- A sequence that never ends does not end where everything in it is escaped either. -/
theorem close_flatMap_escapeChar_of_unended {braces : Nat} {text : Text}
    (unended : close [.template braces] text = none) (outer : List Opening) :
    ∃ still : List Opening, still ≠ []
      ∧ close (.template braces :: outer) (text.flatMap escapeChar ++ more)
        = (close (still ++ outer) more).map
            fun (span, after) => (text.flatMap escapeChar ++ span, after) := by
  induction text generalizing braces with
  | nil => exact ⟨[.template braces], by simp, by simp⟩
  | cons c rest ih =>
    -- Up to the first quote the escaped text opens and closes the same braces; the string that the
    -- quote opens is not closed any more.
    have deeper : ∃ still : List Opening, still ≠ []
        ∧ close (afterTemplateChar c braces outer) (rest.flatMap escapeChar ++ more)
          = (close (still ++ outer) more).map
              fun (span, after) => (rest.flatMap escapeChar ++ span, after) := by
      rw [close_template, Option.map_eq_none_iff] at unended
      unfold afterTemplateChar at unended ⊢
      split_ifs at unended ⊢ with isQuote isOpen isClose
      · have string : closing? [.quote] = some '"' := rfl
        obtain ⟨still, -, same⟩ :=
          close_flatMap_escapeChar quote string (.template braces :: outer) rest
        exact ⟨still ++ [.template braces], by simp, by simpa using same⟩
      · exact ih unended
      · cases braces with
        | zero => simp [close] at unended
        | succ braces => exact ih unended
      · exact ih unended
    obtain ⟨still, some, same⟩ := deeper
    refine ⟨still, some, ?_⟩
    rw [List.flatMap_cons, List.append_assoc, close_template_escapeChar, same, Option.map_map]
    simp [Function.comp_def]

end Open

/-- Escaping a text leaves a sequence that never ends without an end. -/
theorem close_flatMap_escapeChar_eq_none {text : Text}
    (unended : close [.template 0] text = none) :
    close [.template 0] (text.flatMap escapeChar) = none := by
  have quote : ∀ e tail, ([] : Text) = e :: tail → e = '"' := nofun
  obtain ⟨still, some, same⟩ := close_flatMap_escapeChar_of_unended quote unended []
  obtain ⟨opening, others, rfl⟩ := List.exists_cons_of_ne_nil some
  simpa [close] using same

/-- A quote behind a sequence that never ends belongs to the sequence, so that what closes the string
around it goes on behind the quote. -/
theorem length_lt_of_close_unended {text rest span after : Text} {outer : List Opening}
    (string : outer ≠ []) (unended : close [.template 0] text = none)
    (closes : close (.template 0 :: outer) (text.flatMap escapeChar ++ '"' :: rest)
      = some (span, after)) : after.length < rest.length := by
  have quote : ∀ e tail, '"' :: rest = e :: tail → e = '"' := by grind
  obtain ⟨still, some, same⟩ := close_flatMap_escapeChar_of_unended quote unended outer
  rw [closes] at same
  obtain ⟨⟨inside, behind⟩, found, here⟩ := Option.map_eq_some_iff.mp same.symm
  cases here
  -- The sequence and the string are still open before the quote, which can close one of them.
  have needed := length_le_of_close found
  have whole := congrArg List.length (close_append found)
  have := List.length_pos_iff.mpr some
  have := List.length_pos_iff.mpr string
  simp only [List.length_append, List.length_cons] at needed whole
  omega

/-- If a sequence of a content never ends, the quote after the content does not close the string: what
closes it, if anything does, goes on behind the quote. -/
theorem length_lt_of_close_escape {content rest span after : Text}
    (unended : sequencesEnd content = false)
    (closes : close [.quote] (escape content ++ '"' :: rest) = some (span, after)) :
    after.length < rest.length := by
  -- Up to the sequence that never ends the scan closes what it opens, and from there on it goes
  -- past the quote.
  fun_induction sequencesEnd content generalizing span after with
  | case1 | case2 => cases unended
  | case3 c d more pair ih =>
    have mark : isTemplateMark c = true := (Bool.and_eq_true_iff.mp pair).1
    rw [escape_pair pair, List.cons_append, List.cons_append,
      close_quote_pair (apart_of_isTemplateMark mark).1 (by simp [pair])] at closes
    obtain ⟨⟨inside, behind⟩, found, same⟩ := Option.map_eq_some_iff.mp closes
    cases same
    exact ih unended found
  | case4 c d more single opens front back ends shorter ih =>
    have mark : isTemplateMark c = true := (Bool.and_eq_true_iff.mp opens).1
    obtain ⟨notQuote, notBackslash⟩ := apart_of_isTemplateMark mark
    have inside := close_append_of_close ends [.quote] (escape back ++ '"' :: rest)
    rw [List.singleton_append] at inside
    rw [escape_template single opens ends, List.append_assoc, List.cons_append, List.cons_append,
      close_quote_template notQuote (by simpa [notBackslash] using single) opens, inside,
      Option.map_map] at closes
    obtain ⟨⟨inside, behind⟩, found, same⟩ := Option.map_eq_some_iff.mp closes
    cases same
    exact ih unended found
  | case5 c d more single opens never =>
    obtain ⟨mark, rfl⟩ : isTemplateMark c = true ∧ d = '{' := by simpa using opens
    obtain ⟨notQuote, notBackslash⟩ := apart_of_isTemplateMark mark
    have brace : escapeChar '{' = ['{'] := rfl
    rw [escape_unended single opens never, escapeChar_of_isTemplateMark mark, List.flatMap_cons,
      brace, List.singleton_append, List.singleton_append, List.cons_append, List.cons_append,
      close_quote_template notQuote (by simpa [notBackslash] using single) opens] at closes
    obtain ⟨⟨inside, behind⟩, found, same⟩ := Option.map_eq_some_iff.mp closes
    cases same
    exact length_lt_of_close_unended (by simp) never found
  | case6 c d more single plain ih =>
    obtain ⟨e, tail, same, first⟩ := escape_cons d more
    have := mark_apart (c := c) (e := e)
    rw [escape_plain single plain, List.append_assoc, close_escapeChar ?_] at closes
    · obtain ⟨⟨inside, behind⟩, found, same⟩ := Option.map_eq_some_iff.mp closes
      cases same
      exact ih unended found
    · rw [same]
      grind

/-! ### Unescaping -/

/-- The letter of an escape writes the character it stands for. -/
theorem escaped?_of_lookup {c letter : Char} (h : namedEscapes.lookup c = some letter)
    (more : Text) : escaped? letter more = some (c, 0) := by
  -- No letter stands for two characters, so the first entry with the letter is the one.
  have unique : ∀ pair ∈ namedEscapes, namedEscapes.find? (·.2 = pair.2) = some pair := by decide
  obtain ⟨before, after, split, -⟩ := List.lookup_eq_some_iff.mp h
  have found := unique (c, letter) (by simp [split])
  rw [escaped?, found]

/-- An escaped character is read back, whatever follows it. -/
theorem unescapePlain_escapeChar (c : Char) (more : Text) :
    unescapePlain (escapeChar c ++ more) = c :: unescapePlain more := by
  rcases escapeChar_cases c with ⟨letter, named, same⟩ | ⟨-, notBackslash, same⟩
  · rw [same, List.cons_append, List.cons_append, unescapePlain, if_pos rfl,
      escaped?_of_lookup named]
    rfl
  · rw [same, List.singleton_append]
    cases more with
    | nil => simp [unescapePlain]
    | cons d more => rw [unescapePlain, if_neg notBackslash]

/-- An escaped text is read back. -/
theorem unescapePlain_flatMap (text : Text) :
    unescapePlain (text.flatMap escapeChar) = text := by
  induction text with
  | nil => simp [unescapePlain]
  | cons c rest ih => rw [List.flatMap_cons, unescapePlain_escapeChar, ih]

/-- A segment with its plain characters escaped. -/
def escapeSegment : Segment → Segment
  | .plain text => .plain (text.flatMap escapeChar)
  | .template text => .template text

/-- Escaping the segments escapes the plain characters in front of them. -/
theorem map_prependPlain (text : Text) (pieces : List Segment) :
    (prependPlain text pieces).map escapeSegment
      = prependPlain (text.flatMap escapeChar) (pieces.map escapeSegment) := by
  cases pieces with
  | nil => simp [prependPlain, escapeSegment]
  | cons piece others => cases piece <;> simp [prependPlain, escapeSegment]

/-- An escaped character is plain, unless what follows makes it a doubled mark or the start of a
sequence. -/
theorem segments_escapeChar {c e : Char} {tail : Text}
    (single : ¬ (isTemplateMark c && e = c) = true)
    (plain : ¬ (isTemplateMark c && e = '{') = true) :
    segments true (escapeChar c ++ e :: tail)
      = prependPlain (escapeChar c) (segments true (e :: tail)) := by
  rcases escapeChar_cases c with ⟨letter, -, same⟩ | ⟨-, notBackslash, same⟩
  · rw [same]
    change segments true ('\\' :: letter :: e :: tail) = _
    rw [segments, if_pos (by simp)]
  · rw [same, List.singleton_append, segments, if_neg (by simpa [notBackslash] using single),
      if_neg plain]

/-- Escaping keeps the segments of a content and escapes the plain ones. -/
theorem segments_escape (content : Text) :
    segments true (escape content) = (segments false content).map escapeSegment := by
  fun_induction sequencesEnd content with
  | case1 => simp [segments]
  | case2 c =>
    rw [escape_singleton, segments, List.map_singleton, escapeSegment, List.flatMap_singleton]
    -- The escape of a single character is one piece of two characters or one of one.
    rcases escapeChar_cases c with ⟨letter, -, same⟩ | ⟨-, -, same⟩
    · rw [same, segments, if_pos (by simp), segments]
      rfl
    · rw [same, segments]
  | case3 c d rest pair ih =>
    obtain ⟨mark, rfl⟩ : isTemplateMark c = true ∧ d = c := by simpa using pair
    rw [escape_pair pair, segments, if_pos (by simp [mark]), segments, if_pos (by simp [mark]),
      map_prependPlain, ih]
    simp [escapeChar_of_isTemplateMark mark]
  | case4 c d rest single opens span after closes shorter ih =>
    obtain ⟨-, notBackslash⟩ := apart_of_isTemplateMark (Bool.and_eq_true_iff.mp opens).1
    -- A sequence is kept, so it ends at the same place when what follows it is escaped.
    have inside := close_span_append closes (escape after)
    rw [escape_template single opens closes, List.cons_append, List.cons_append,
      segments_template (by simpa [notBackslash] using single) opens inside,
      segments_template (by simpa using single) opens closes, ih]
    rfl
  | case5 c d rest single opens unended =>
    obtain ⟨mark, rfl⟩ : isTemplateMark c = true ∧ d = '{' := by simpa using opens
    obtain ⟨-, notBackslash⟩ := apart_of_isTemplateMark mark
    have brace : escapeChar '{' = ['{'] := rfl
    -- The sequence does not end in what is escaped either, so both sides are one plain piece.
    rw [escape_unended single opens unended, escapeChar_of_isTemplateMark mark, List.flatMap_cons,
      brace, List.singleton_append, List.singleton_append,
      segments_unended (by simpa [notBackslash] using single) opens
        (close_flatMap_escapeChar_eq_none unended),
      segments_unended (by simpa using single) opens unended]
    simp [escapeSegment, escapeChar_of_isTemplateMark mark, brace]
  | case6 c d rest single plain ih =>
    obtain ⟨e, tail, same, first⟩ := escape_cons d rest
    have := mark_apart (c := c) (e := e)
    rw [escape_plain single plain, same, segments_escapeChar (by grind) (by grind), ← same,
      ih, segments, if_neg (by simpa using single), if_neg plain, map_prependPlain]
    simp

/-- The characters of a segment. -/
def segmentText : Segment → Text
  | .plain text => text
  | .template text => text

/-- The text of the segments has the plain characters in front of it. -/
theorem flatMap_segmentText_prependPlain (text : Text) (pieces : List Segment) :
    (prependPlain text pieces).flatMap segmentText = text ++ pieces.flatMap segmentText := by
  cases pieces with
  | nil => simp [prependPlain, segmentText]
  | cons piece others => cases piece <;> simp [prependPlain, segmentText]

/-- The segments of a content make it up. -/
theorem flatMap_segments (raw : Bool) (content : Text) :
    (segments raw content).flatMap segmentText = content := by
  fun_induction segments raw content with
  | case1 => rfl
  | case2 | case5 => simp [segmentText]
  | case3 c d rest pair ih => simp [flatMap_segmentText_prependPlain, ih]
  | case4 c d rest single opens span after closes shorter ih =>
    simp [segmentText, ih, close_append closes]
  | case6 c d rest single plain ih => simp [flatMap_segmentText_prependPlain, ih]

/-- A segment of source as the reader means it. -/
def unescapeSegment : Segment → Text
  | .plain text => unescapePlain text
  | .template text => text

/-- A source is unescaped segment by segment. -/
theorem unescape_eq_flatMap (source : Text) :
    unescape source = (segments true source).flatMap unescapeSegment := by
  unfold unescape
  congr 1

/-- Unescaping a segment gives back what was escaped. -/
theorem unescapeSegment_escapeSegment (segment : Segment) :
    unescapeSegment (escapeSegment segment) = segmentText segment := by
  cases segment with
  | plain text => exact unescapePlain_flatMap text
  | template text => rfl

/-- A source whose segments are those of a content with the plain ones escaped is read as that
content. -/
theorem unescape_of_segments {source content : Text}
    (same : segments true source = (segments false content).map escapeSegment) :
    unescape source = content := by
  calc unescape source
    _ = (segments false content).flatMap fun segment => unescapeSegment (escapeSegment segment) := by
      rw [unescape_eq_flatMap, same, List.flatMap_map]
    _ = (segments false content).flatMap segmentText := by
      simp only [unescapeSegment_escapeSegment]
    _ = content := flatMap_segments false content

/-- Unescaping undoes escaping, whatever the text: no escape that is put in starts, hides, opens or
ends a template sequence. -/
theorem unescape_escape (content : Text) : unescape (escape content) = content :=
  unescape_of_segments (segments_escape content)

end Text

namespace Grammar

open Rule

/-- A quoted text is read back before any other text. -/
theorem quotedString_quote {content : Text} (ends : content.sequencesEnd = true) (rest : Text) :
    quotedString (content.quote ++ rest) = .matched content rest := by
  have closes := Text.close_escape ends rest
  have same : content.quote ++ rest = '"' :: (Text.escape content ++ '"' :: rest) := by
    simp [Text.quote]
  rw [same, quotedString]
  simp [closes, Text.unescape_of_segments (Text.segments_escape content)]

/-- A content that is read back from its quoted form has no sequence that never ends: the sequence would
take the closing quote, and the string would go on into what follows it. -/
theorem sequencesEnd_of_quotedString_quote {content rest : Text}
    (read : quotedString (content.quote ++ rest) = .matched content rest) :
    content.sequencesEnd = true := by
  by_contra unended
  have same : content.quote ++ rest = '"' :: (Text.escape content ++ '"' :: rest) := by
    simp [Text.quote]
  rw [same, quotedString, if_pos rfl] at read
  split at read
  · next span after closes =>
    cases read
    exact Nat.lt_irrefl _
      (Text.length_lt_of_close_escape (Bool.not_eq_true _ ▸ unended) closes)
  · cases read

end Grammar

end HclSyntax
