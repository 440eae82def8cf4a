import HclSyntax.Proofs.Grammar.Account
import HclSyntax.Proofs.Text.Unescaping

/-!
# `HclSyntax.Proofs.Text.Spelling`: strings that are read back

A string that was read can be quoted and read again exactly if every template sequence of its content
ends (`quotedString_reread`). The sequences that the source writes do end, but unescaping can make
others: an escape may write a mark or an opening brace, and a backslash that is kept is escaped again,
so that the mark behind it is a mark once more.

`Text.keepsSequences` says of a source that neither happens. The equations of `unescape` go along a
source escape by escape (`unescape_escape_eq`, `unescape_kept`) and not piece by piece, so that the
content can be compared with it from left to right (`sequencesEnd_unescape`).
-/

set_option autoImplicit false

namespace HclSyntax

namespace Text

/-! ### Unescaping, from left to right -/

/-- The plain text that pieces start with. -/
def leadingPlain : List Segment → Text
  | .plain text :: _ => text
  | _ => []

/-- What pieces mean behind the plain text that they start with. -/
def behindPlain : List Segment → Text
  | .plain _ :: rest => rest.flatMap unescapeSegment
  | pieces => pieces.flatMap unescapeSegment

/-- Only the plain text at the start depends on what stands in front of it. -/
theorem flatMap_unescapeSegment (pieces : List Segment) :
    pieces.flatMap unescapeSegment = unescapePlain (leadingPlain pieces) ++ behindPlain pieces := by
  match pieces with
  | [] => simp [leadingPlain, behindPlain, unescapePlain]
  | .plain text :: rest => simp [leadingPlain, behindPlain, unescapeSegment]
  | .template text :: rest => simp [leadingPlain, behindPlain, unescapePlain]

/-- Plain text put in front joins the plain text at the start. -/
@[simp]
theorem leadingPlain_prependPlain (text : Text) (pieces : List Segment) :
    leadingPlain (prependPlain text pieces) = text ++ leadingPlain pieces := by
  match pieces with
  | [] => simp [leadingPlain, prependPlain]
  | .plain next :: rest => simp [leadingPlain, prependPlain]
  | .template next :: rest => simp [leadingPlain, prependPlain]

/-- Nothing changes behind it. -/
@[simp]
theorem behindPlain_prependPlain (text : Text) (pieces : List Segment) :
    behindPlain (prependPlain text pieces) = behindPlain pieces := by
  match pieces with
  | [] => simp [behindPlain, prependPlain]
  | .plain next :: rest => simp [behindPlain, prependPlain]
  | .template next :: rest => simp [behindPlain, prependPlain]

/-- A character that is no backslash stays as it is. -/
theorem unescapePlain_cons {c : Char} (plain : c ≠ '\\') (rest : Text) :
    unescapePlain (c :: rest) = c :: unescapePlain rest := by
  cases rest with
  | nil => simp [unescapePlain]
  | cons d rest => rw [unescapePlain, if_neg plain]

/-- A source starts with the plain text of its pieces. -/
theorem exists_leadingPlain_append (source : Text) :
    ∃ behind, source = leadingPlain (segments true source) ++ behind := by
  have whole := flatMap_segments true source
  generalize segments true source = pieces at whole
  match pieces with
  | [] => exact ⟨source, rfl⟩
  | .plain text :: rest => exact ⟨rest.flatMap segmentText, whole.symm⟩
  | .template text :: rest => exact ⟨source, rfl⟩

section Equations
variable {c d letter : Char} {rest : Text}

/-- The empty source is unescaped to nothing. -/
theorem unescape_nil : unescape [] = [] := by
  simp [unescape_eq_flatMap, segments]

/-- A single character stays as it is, a backslash too. -/
theorem unescape_singleton (c : Char) : unescape [c] = [c] := by
  simp [unescape_eq_flatMap, segments, unescapeSegment, unescapePlain]

/-- A doubled mark is kept. -/
theorem unescape_doubled (mark : isTemplateMark c = true) :
    unescape (c :: c :: rest) = c :: c :: unescape rest := by
  have notBackslash := (apart_of_isTemplateMark mark).2
  rw [unescape_eq_flatMap, segments, if_pos (by simp [mark]), flatMap_unescapeSegment,
    leadingPlain_prependPlain, behindPlain_prependPlain, List.cons_append, List.cons_append,
    unescapePlain_cons notBackslash, unescapePlain_cons notBackslash, unescape_eq_flatMap,
    flatMap_unescapeSegment]
  rfl

/-- A template sequence is kept. -/
theorem unescape_sequence {span after : Text} (notBackslash : c ≠ '\\')
    (single : ¬ (isTemplateMark c && d = c) = true) (opens : (isTemplateMark c && d = '{') = true)
    (closes : close [.template 0] rest = some (span, after)) :
    unescape (c :: d :: rest) = c :: d :: span ++ unescape after := by
  rw [unescape_eq_flatMap, segments_template (by simpa [notBackslash] using single) opens closes,
    List.flatMap_cons, unescapeSegment, unescape_eq_flatMap]

/-- A character that starts nothing is kept. -/
theorem unescape_plain (notBackslash : c ≠ '\\') (single : ¬ (isTemplateMark c && d = c) = true)
    (plain : ¬ (isTemplateMark c && d = '{') = true) :
    unescape (c :: d :: rest) = c :: unescape (d :: rest) := by
  rw [unescape_eq_flatMap, segments, if_neg (by simpa [notBackslash] using single), if_neg plain,
    flatMap_unescapeSegment, leadingPlain_prependPlain, behindPlain_prependPlain,
    List.singleton_append, unescapePlain_cons notBackslash, unescape_eq_flatMap,
    flatMap_unescapeSegment]
  rfl

/-- What digits are no part of: an escape of their own and a template sequence. -/
theorem leadingPlain_digits {digits : Text} (behind : Text)
    (apart : ∀ d ∈ digits, d ≠ '\\' ∧ isTemplateMark d = false) :
    leadingPlain (segments true (digits ++ behind))
        = digits ++ leadingPlain (segments true behind)
      ∧ behindPlain (segments true (digits ++ behind)) = behindPlain (segments true behind) := by
  induction digits with
  | nil => exact ⟨rfl, rfl⟩
  | cons d digits ih =>
    obtain ⟨⟨notBackslash, noMark⟩, others⟩ := List.forall_mem_cons.mp apart
    obtain ⟨leading, after⟩ := ih others
    -- A character that starts nothing joins the plain text.
    have step (more : Text) :
        leadingPlain (segments true (d :: more)) = d :: leadingPlain (segments true more)
          ∧ behindPlain (segments true (d :: more)) = behindPlain (segments true more) := by
      cases more with
      | nil => simp [segments, leadingPlain, behindPlain]
      | cons e more =>
        rw [segments, if_neg (by simp [notBackslash, noMark]), if_neg (by simp [noMark])]
        simp
    rw [List.cons_append, (step _).1, (step _).2, leading, after]
    exact ⟨rfl, rfl⟩

/-- The characters of a code point have no meaning of their own. -/
theorem apart_of_escaped {digits : Text} (spells : Writes letter digits c ∨ WritesSigned letter digits c) :
    ∀ d ∈ digits, d ≠ '\\' ∧ isTemplateMark d = false := by
  have hexadecimal {e : Char} (digit : isHexDigit e = true) : e ≠ '\\' ∧ isTemplateMark e = false := by
    refine ⟨fun same => absurd digit (same ▸ by decide), ?_⟩
    rw [← Bool.not_eq_true, isTemplateMark_iff]
    rintro (rfl | rfl) <;> exact absurd digit (by decide)
  intro d mem
  rcases spells with writes | signed
  · cases writes with
    | letter => cases mem
    | codePoint _ _ digits _ => exact hexadecimal (digits d mem)
  · obtain ⟨_, _, digits, _⟩ := signed
    rcases List.mem_cons.mp mem with rfl | mem
    · decide
    · exact hexadecimal (digits d mem)

/-- A backslash takes the next character with it into the plain text. -/
theorem segments_backslash :
    segments true ('\\' :: letter :: rest) = prependPlain ['\\', letter] (segments true rest) := by
  rw [segments, if_pos (by simp)]

/-- An escape is replaced by the character that it writes. -/
theorem unescape_escape_eq {used : Nat} (writes : escaped? letter rest = some (d, used)) :
    unescape ('\\' :: letter :: rest) = d :: unescape (rest.drop used) := by
  obtain ⟨digits, behind, rfl, rfl, spells⟩ := escaped?_eq_some_iff.mp writes
  obtain ⟨leading, after⟩ := leadingPlain_digits behind (apart_of_escaped spells)
  -- The digits are in the same plain piece as the escape.
  have inPiece : escaped? letter (digits ++ leadingPlain (segments true behind))
      = some (d, digits.length) := escaped?_eq_some_iff.mpr ⟨digits, _, rfl, rfl, spells⟩
  rw [unescape_eq_flatMap, segments_backslash, flatMap_unescapeSegment, leadingPlain_prependPlain,
    behindPlain_prependPlain, leading, after, List.cons_append, List.singleton_append,
    unescapePlain, if_pos rfl, inPiece, List.drop_left, unescape_eq_flatMap,
    flatMap_unescapeSegment]
  simp

/-- A backslash that writes nothing is kept, with the character behind it. -/
theorem unescape_kept (nothing : escaped? letter rest = none) :
    unescape ('\\' :: letter :: rest) = '\\' :: letter :: unescape rest := by
  have inPiece : escaped? letter (leadingPlain (segments true rest)) = none := by
    obtain ⟨behind, whole⟩ := exists_leadingPlain_append rest
    by_contra found
    obtain ⟨⟨d, used⟩, found⟩ := Option.ne_none_iff_exists'.mp found
    obtain ⟨digits, more, same, length, spells⟩ := escaped?_eq_some_iff.mp found
    -- Digits in the piece are digits in the source.
    have writes : escaped? letter rest = some (d, used) :=
      escaped?_eq_some_iff.mpr ⟨digits, more ++ behind, by
        rw [whole, same, List.append_assoc], length, spells⟩
    rw [nothing] at writes
    cases writes
  rw [unescape_eq_flatMap, segments_backslash, flatMap_unescapeSegment, leadingPlain_prependPlain,
    behindPlain_prependPlain, List.cons_append, List.singleton_append, unescapePlain, if_pos rfl,
    inPiece, unescape_eq_flatMap, flatMap_unescapeSegment]
  rfl

end Equations

/-! ### The sequences of a content -/

/-- Whether the template sequences of a content are those that its source writes: no escape writes a
mark or an opening brace, no backslash that is kept stands before a mark, and every sequence of the
source ends. -/
def keepsSequences (source : Text) : Bool :=
  match source with
  | [] => true
  | [_] => true
  | c :: d :: rest =>
    if c = '\\' then
      match escaped? d rest with
      | some (written, used) =>
        !isTemplateMark written && written != '{' && keepsSequences (rest.drop used)
      | none => !isTemplateMark d && keepsSequences rest
    else if isTemplateMark c && d = c then keepsSequences rest
    else if isTemplateMark c && d = '{' then
      match h : close [.template 0] rest with
      | some (_, after) =>
        have : after.length ≤ rest.length := by rw [← close_append h]; simp
        keepsSequences after
      | none => false
    else keepsSequences (d :: rest)
termination_by source.length
decreasing_by all_goals simp_wf; try omega

/-- A character in front of a content starts no sequence, unless it is a mark and what follows is the
same mark or an opening brace. -/
theorem sequencesEnd_cons {c : Char} {content : Text}
    (apart : isTemplateMark c = true → ∀ e ∈ content.head?, e ≠ c ∧ e ≠ '{') :
    sequencesEnd (c :: content) = sequencesEnd content := by
  cases content with
  | nil => simp [sequencesEnd]
  | cons e content =>
    have := apart
    rw [sequencesEnd, if_neg (by grind), if_neg (by grind)]

/-- What a source means starts as the source does, or with a character that has no part in how
sequences start. -/
theorem head_unescape {source : Text} (keeps : keepsSequences source = true) :
    ∀ e ∈ (unescape source).head?, e ∈ source.head? ∨ isTemplateMark e = false ∧ e ≠ '{' := by
  -- An escape never writes a mark or a brace, and anything else stays as it is.
  fun_induction keepsSequences source with
  | case1 => simp [unescape_nil]
  | case2 => simp [unescape_singleton]
  | case3 letter rest written used writes =>
    rw [unescape_escape_eq writes]
    simp_all
  | case4 letter rest nothing =>
    rw [unescape_kept nothing]
    simp
  | case5 c d rest backslash pair =>
    obtain ⟨mark, rfl⟩ : isTemplateMark c = true ∧ d = c := by simpa using pair
    rw [unescape_doubled mark]
    simp
  | case6 c d rest backslash single opens span after closes =>
    rw [unescape_sequence backslash single opens closes]
    simp
  | case7 => cases keeps
  | case8 c d rest backslash single plain =>
    rw [unescape_plain backslash single plain]
    simp

/-- Where the sequences of a source are kept, all sequences of the content end. -/
theorem sequencesEnd_unescape {source : Text} (keeps : keepsSequences source = true) :
    (unescape source).sequencesEnd = true := by
  fun_induction keepsSequences source with
  | case1 => simp [unescape_nil, sequencesEnd]
  | case2 => simp [unescape_singleton, sequencesEnd]
  | case3 letter rest written used writes ih =>
    obtain ⟨⟨noMark, -⟩, keeps⟩ : (isTemplateMark written = false ∧ written ≠ '{')
        ∧ keepsSequences (rest.drop used) = true := by simpa using keeps
    rw [unescape_escape_eq writes, sequencesEnd_cons (by simp [noMark]), ih keeps]
  | case4 letter rest nothing ih =>
    obtain ⟨noMark, keeps⟩ : isTemplateMark letter = false ∧ keepsSequences rest = true := by
      simpa using keeps
    rw [unescape_kept nothing, sequencesEnd_cons (by simp [isTemplateMark]),
      sequencesEnd_cons (by simp [noMark]), ih keeps]
  | case5 c d rest backslash pair ih =>
    obtain ⟨mark, rfl⟩ : isTemplateMark c = true ∧ d = c := by simpa using pair
    rw [unescape_doubled mark, sequencesEnd, if_pos pair, ih keeps]
  | case6 c d rest backslash single opens span after closes shorter ih =>
    -- The sequence ends where it does in the source, whatever has been unescaped behind it.
    have inside := close_span_append closes (unescape after)
    rw [unescape_sequence backslash single opens closes, List.cons_append, List.cons_append,
      sequencesEnd_template single opens inside, ih keeps]
  | case7 => cases keeps
  | case8 c d rest backslash single plain ih =>
    have := head_unescape keeps
    rw [unescape_plain backslash single plain, sequencesEnd_cons (by grind), ih keeps]

end Text

namespace Grammar

open Rule

/-- A string that was read is read back from its quoted form, whatever follows it, exactly if every
template sequence of its content ends. That is so where the source writes the sequences of the content
as they are. -/
theorem quotedString_reread {text content rest : Text}
    (h : quotedString text = .matched content rest) :
    (∀ follow, quotedString (content.quote ++ follow) = .matched content follow
        ↔ content.sequencesEnd = true)
      ∧ ∃ source, text = '"' :: source ++ '"' :: rest ∧ content = Text.unescape source
        ∧ (Text.keepsSequences source = true → content.sequencesEnd = true) := by
  obtain ⟨-, rfl, source, rfl, -, rfl⟩ := quotes_of_matched h
  exact ⟨fun follow => ⟨sequencesEnd_of_quotedString_quote, fun ends => quotedString_quote ends follow⟩,
    source, by simp, rfl, Text.sequencesEnd_unescape⟩

/-- A code point, a doubled mark and a sequence with a string in it. -/
theorem quotedString_reread_sequence :
    quotedString "\"\\u0041$$\x7b%\x7bf(\"\x7d\")\x7d\" b".toList
        = .matched "A$$\x7b%\x7bf(\"\x7d\")\x7d".toList " b".toList
      ∧ quotedString (Text.quote "A$$\x7b%\x7bf(\"\x7d\")\x7d".toList ++ " b".toList)
        = .matched "A$$\x7b%\x7bf(\"\x7d\")\x7d".toList " b".toList := by
  have read : quotedString "\"\\u0041$$\x7b%\x7bf(\"\x7d\")\x7d\" b".toList
      = .matched "A$$\x7b%\x7bf(\"\x7d\")\x7d".toList " b".toList := by
    cbv
  obtain ⟨reread, -⟩ := quotedString_reread read
  exact ⟨read, (reread " b".toList).mpr (by cbv)⟩

/-- A backslash in front of a mark is kept, and escaped when the content is quoted: the mark then starts
a sequence that takes the closing quote. -/
theorem not_quotedString_reread :
    quotedString "\"\\$\x7b\"".toList = .matched "\\$\x7b".toList []
      ∧ quotedString (Text.quote "\\$\x7b".toList)
        = .committed "\\\\$\x7b\"".toList (.unterminated .quotedString) := by
  constructor <;> cbv

end Grammar

end HclSyntax
