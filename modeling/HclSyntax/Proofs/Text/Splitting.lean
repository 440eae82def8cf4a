import HclSyntax.Proofs.Text.Quoting

/-!
# `HclSyntax.Proofs.Text.Splitting`: the pieces of a string

Two scans go through a quoted string. One looks for the quote that ends it, on the whole rest of the
text, and skips the template sequences it meets (`Text.scanString`). The other splits what is between
the quotes into pieces (`Text.segments`). `SplitsInto` describes a run of the second one that meets
no sequence without an end.

* `quotedSpan_splits`: both take the same steps, so the sequences that the first one skips are the
  sequences among the pieces;
* `quotedString_quote_iff`: a content can be read back from its quoted form exactly when all its
  sequences end.
-/

set_option autoImplicit false

namespace HclSyntax

namespace Text

/-! ### Splitting a content -/

/-- A content splits into these pieces, and every template sequence that starts in it ends in it. -/
inductive SplitsInto (raw : Bool) : Text → List Segment → Prop
  | nil : SplitsInto raw [] []
  | last (c : Char) : SplitsInto raw [c] [.plain [c]]
  | pair {c d : Char} {rest : Text} {pieces : List Segment}
    (pair : ((raw && c = '\\') || (isTemplateMark c && d = c)) = true)
    (more : SplitsInto raw rest pieces) :
    SplitsInto raw (c :: d :: rest) (prependPlain [c, d] pieces)
  | template {c d : Char} {rest span after : Text} {pieces : List Segment}
    (single : ¬ ((raw && c = '\\') || (isTemplateMark c && d = c)) = true)
    (opens : (isTemplateMark c && d = '{') = true)
    (ends : close [.template 0] rest = some (span, after))
    (more : SplitsInto raw after pieces) :
    SplitsInto raw (c :: d :: rest) (.template (c :: d :: span) :: pieces)
  | plain {c d : Char} {rest : Text} {pieces : List Segment}
    (single : ¬ ((raw && c = '\\') || (isTemplateMark c && d = c)) = true)
    (plain : ¬ (isTemplateMark c && d = '{') = true)
    (more : SplitsInto raw (d :: rest) pieces) :
    SplitsInto raw (c :: d :: rest) (prependPlain [c] pieces)

/-- The pieces are the segments. -/
theorem SplitsInto.segments_eq {raw : Bool} {content : Text} {pieces : List Segment}
    (splits : SplitsInto raw content pieces) : segments raw content = pieces := by
  induction splits with
  | nil => rw [segments]
  | last c => rw [segments]
  | pair pair more ih => rw [segments, if_pos pair, ih]
  | template single opens ends more ih => rw [segments_template single opens ends, ih]
  | plain single plain more ih => rw [segments, if_neg single, if_neg plain, ih]

/-- The sequences of a content end exactly when it splits without meeting one that does not. -/
theorem sequencesEnd_iff {content : Text} :
    content.sequencesEnd = true ↔ SplitsInto false content (segments false content) := by
  constructor
  · intro ends
    -- A text splits in one way only, so any pieces are the segments.
    suffices ∃ pieces, SplitsInto false content pieces by
      obtain ⟨pieces, splits⟩ := this
      rwa [splits.segments_eq]
    fun_induction sequencesEnd content with
    | case1 => exact ⟨_, .nil⟩
    | case2 c => exact ⟨_, .last c⟩
    | case3 c d rest pair ih =>
      obtain ⟨pieces, splits⟩ := ih ends
      exact ⟨_, .pair (by simpa using pair) splits⟩
    | case4 c d rest single opens span after closes shorter ih =>
      obtain ⟨pieces, splits⟩ := ih ends
      exact ⟨_, .template (by simpa using single) opens closes splits⟩
    | case5 => cases ends
    | case6 c d rest single plain ih =>
      obtain ⟨pieces, splits⟩ := ih ends
      exact ⟨_, .plain (by simpa using single) plain splits⟩
  · intro splits
    generalize segments false content = pieces at splits
    induction splits with
    | nil => simp [sequencesEnd]
    | last c => simp [sequencesEnd]
    | pair pair more ih => rw [sequencesEnd, if_pos (by simpa using pair), ih]
    | template single opens ends more ih =>
      rw [sequencesEnd_template (by simpa using single) opens ends, ih]
    | plain single plain more ih =>
      rw [sequencesEnd, if_neg (by simpa using single), if_neg plain, ih]

/-! ### The end of a string -/

/-- The scan for the quote that ends a string: what it goes through before the quote, where the
template sequences that it skips as a whole stand apart from the characters between them, and what
follows the quote. -/
def scanString (text : Text) : Option (List Segment × Text) :=
  match text with
  | [] => none
  | c :: rest =>
    if c = '"' then some ([], rest)
    else
      match rest with
      | [] => none
      | d :: tail =>
        if c = '\\' || (isTemplateMark c && d = c) then
          (scanString tail).map fun (pieces, after) => (prependPlain [c, d] pieces, after)
        else if isTemplateMark c && d = '{' then
          match h : close [.template 0] tail with
          | some (span, behind) =>
            have : behind.length ≤ tail.length := by rw [← close_append h]; simp
            (scanString behind).map fun (pieces, after) => (.template (c :: d :: span) :: pieces, after)
          | none => none
        else (scanString (d :: tail)).map fun (pieces, after) => (prependPlain [c] pieces, after)
termination_by text.length

/-- The scan stops behind the quote that closes the string. -/
theorem map_snd_scanString (text : Text) :
    (scanString text).map Prod.snd = (close [.quote] text).map Prod.snd := by
  fun_induction scanString text with
  | case1 => rfl
  | case2 rest => simp [close_quote_end, close]
  | case3 c notQuote => simp [close, notQuote]
  | case4 c notQuote d tail pair ih =>
    rw [close_quote_pair notQuote pair, Option.map_map, Option.map_map]
    exact ih
  | case5 c notQuote d tail single opens span after closes shorter ih =>
    -- A sequence that ends leaves the string open, as in the scan of delimiters.
    have inside := close_append_of_close closes [.quote] after
    rw [List.singleton_append, close_append closes] at inside
    rw [close_quote_template notQuote single opens, inside, Option.map_map, Option.map_map,
      Option.map_map]
    exact ih
  | case6 c notQuote d tail single opens unended =>
    have inside := close_append_eq_none unended [.quote]
    rw [List.singleton_append] at inside
    rw [close_quote_template notQuote single opens, inside]
    rfl
  | case7 c notQuote d tail single plain ih =>
    rw [close_quote_plain notQuote single plain, Option.map_map, Option.map_map]
    exact ih

/-- What the scan goes through before the quote is what the content before the quote splits into. -/
theorem scanString_splits {text after : Text} {pieces : List Segment}
    (h : scanString text = some (pieces, after)) :
    ∃ content, text = content ++ '"' :: after ∧ SplitsInto true content pieces := by
  fun_induction scanString text generalizing pieces with
  | case1 | case3 | case6 => cases h
  | case2 rest =>
    cases h
    exact ⟨[], rfl, .nil⟩
  | case4 c notQuote d tail pair ih =>
    obtain ⟨⟨others, behind⟩, found, same⟩ := Option.map_eq_some_iff.mp h
    cases same
    obtain ⟨content, rfl, splits⟩ := ih found
    exact ⟨c :: d :: content, rfl, .pair (by simpa using pair) splits⟩
  | case5 c notQuote d tail single opens span behind closes shorter ih =>
    obtain ⟨⟨others, rest⟩, found, same⟩ := Option.map_eq_some_iff.mp h
    cases same
    obtain ⟨content, rfl, splits⟩ := ih found
    -- On the content alone the sequence closes where it closes on the whole text.
    have inside := close_span_append closes content
    exact ⟨c :: d :: span ++ content, by simp [← close_append closes],
      .template (by simpa using single) opens inside splits⟩
  | case7 c notQuote d tail single plain ih =>
    obtain ⟨⟨others, behind⟩, found, same⟩ := Option.map_eq_some_iff.mp h
    cases same
    obtain ⟨content, whole, splits⟩ := ih found
    cases content with
    | nil =>
      -- The quote follows the character, which is the last one of the content.
      cases splits
      obtain ⟨rfl, rfl⟩ := List.cons.inj whole
      exact ⟨[c], rfl, .last c⟩
    | cons e content =>
      obtain ⟨rfl, rfl⟩ := List.cons.inj whole
      exact ⟨c :: d :: content, rfl, .plain (by simpa using single) plain splits⟩

/-- The scan for the end of a quoted string and the splitter agree. What is between the quotes splits
into pieces without meeting a sequence that does not end, the pieces make it up, and they are what the
scan goes through: the sequences among them are those that it skips as a whole, each in its place. -/
theorem quotedSpan_splits {text span after : Text} (h : quotedSpan text = some (span, after)) :
    ∃ content, span = '"' :: content ++ ['"']
      ∧ SplitsInto true content (segments true content)
      ∧ (segments true content).flatMap segmentText = content
      ∧ scanString (content ++ '"' :: after) = some (segments true content, after) := by
  cases text with
  | nil => cases h
  | cons c rest =>
    rw [quotedSpan] at h
    split_ifs at h with isQuote
    obtain ⟨⟨inside, behind⟩, closes, same⟩ := Option.map_eq_some_iff.mp h
    cases same
    -- The scan of the segments stops at the same quote.
    obtain ⟨⟨pieces, stop⟩, found, rfl⟩ : ∃ reached, scanString rest = some reached
        ∧ reached.2 = after := by
      have stops := map_snd_scanString rest
      rw [closes] at stops
      exact Option.map_eq_some_iff.mp stops
    obtain ⟨content, rfl, splits⟩ := scanString_splits found
    obtain rfl := splits.segments_eq
    have shape : inside = content ++ ['"'] := by
      have whole := close_append closes
      rw [List.append_cons] at whole
      exact List.append_cancel_right whole
    exact ⟨content, by simp [isQuote, shape], splits, flatMap_segments true content, found⟩

/-- A doubled mark, an escaped quote and a sequence with a string in it that holds a brace. -/
theorem quotedSpan_splits_call :
    quotedSpan "\"$$\\\"$\x7bf(\"\x7d\")\x7d\" c".toList
        = some ("\"$$\\\"$\x7bf(\"\x7d\")\x7d\"".toList, " c".toList)
      ∧ ∃ content, "\"$$\\\"$\x7bf(\"\x7d\")\x7d\"".toList = '"' :: content ++ ['"']
        ∧ SplitsInto true content (segments true content)
        ∧ (segments true content).flatMap segmentText = content
        ∧ scanString (content ++ '"' :: " c".toList)
          = some (segments true content, " c".toList) := by
  have found : quotedSpan "\"$$\\\"$\x7bf(\"\x7d\")\x7d\" c".toList
      = some ("\"$$\\\"$\x7bf(\"\x7d\")\x7d\"".toList, " c".toList) := by
    cbv
  exact ⟨found, quotedSpan_splits found⟩

end Text

namespace Grammar

/-- A content can be read back from its quoted form, whatever follows the quotes, exactly when it
splits without meeting a template sequence that does not end. -/
theorem quotedString_quote_iff (content rest : Text) :
    quotedString (content.quote ++ rest) = .matched content rest
      ↔ Text.SplitsInto false content (Text.segments false content) := by
  rw [← Text.sequencesEnd_iff]
  exact ⟨sequencesEnd_of_quotedString_quote, fun ends => quotedString_quote ends rest⟩

end Grammar

end HclSyntax
