import HclSyntax.Grammar.Comment
import HclSyntax.Node.Render
import HclSyntax.Proofs.Grammar.Recursion
import HclSyntax.Proofs.Text.CharacterClass
import HclSyntax.Proofs.Text.Line
import HclSyntax.Proofs.Text.Trim

/-!
# `HclSyntax.Proofs.Grammar.Verbatim`: comments and heredocs are read back

Comments and heredocs keep their text as it stands and end where their own marker says.

* A comment that ends with its line is read back where its line ends (`lineComment_append`), a
  bracketed one before any text, unless it holds the marker that closes it
  (`bracketedComment_append`).
* A heredoc is read back where the closing marker may be followed by what follows on its line
  (`ClosesLine`, `heredoc_append`).
-/

set_option autoImplicit false

namespace HclSyntax.Grammar

open Rule

/-! ### Heredocs -/

/-- What follows on the line may follow the closing marker of a heredoc. -/
def ClosesLine (rest : Text) : Prop :=
  rest.splitLine.1.all mayFollowMarker = true

/-- The end of a line closes it. -/
theorem closesLine_feed (rest : Text) : ClosesLine ('\n' :: rest) := by
  have feed : mayFollowMarker '\n' = true := by decide
  simp [ClosesLine, Text.splitLine_feed, feed]

/-- A character that may follow the marker makes no difference. -/
theorem closesLine_cons {c : Char} {rest : Text} (follows : mayFollowMarker c = true)
    (notFeed : c ≠ '\n') (closes : ClosesLine rest) : ClosesLine (c :: rest) := by
  rw [ClosesLine, Text.splitLine_cons notFeed, List.all_cons, follows, Bool.true_and]
  exact closes

/-- The mark of a heredoc marker is visible. -/
theorem isWhitespace_of_isMarkerChar {c : Char} (h : isMarkerChar c = true) :
    isWhitespace c = false := by
  have word : isAlphanumeric c = true ∨ c ∈ ['_'] := by simpa [isMarkerChar] using h
  exact isWhitespace_of_isAlphanumeric_or_mem (by decide) word

/-- A line with the marker and what may follow it closes the heredoc. -/
theorem closingLine?_marker {marker tail : Text} (nonempty : marker ≠ [])
    (chars : ∀ c ∈ marker, isMarkerChar c = true) (closes : tail.all mayFollowMarker = true) :
    closingLine? marker (marker ++ tail) = some tail := by
  obtain ⟨c, rest, rfl⟩ := List.exists_cons_of_ne_nil nonempty
  have stops : Text.Stops isWhitespace (c :: rest ++ tail) :=
    (Text.stops_cons ..).mpr (isWhitespace_of_isMarkerChar (chars c (by simp)))
  have starts : (c :: rest).isPrefixOf? (c :: rest ++ tail) = some tail :=
    List.isPrefixOf?_eq_some_iff_append_eq.mpr rfl
  rw [closingLine?, Text.trimStart_of_stops stops, starts]
  simp [closes]

/-- A marker is on one line. -/
theorem feed_notMem_marker {marker : Text} (chars : ∀ c ∈ marker, isMarkerChar c = true) :
    '\n' ∉ marker := by
  intro feed
  exact absurd (chars '\n' feed) (by decide)

/-- The lines of a heredoc are found again before its marker. -/
theorem heredocBody_append {marker text inside after : Text} (nonempty : marker ≠ [])
    (chars : ∀ c ∈ marker, isMarkerChar c = true)
    (h : heredocBody marker text = some (inside, after)) {other : Text} (closes : ClosesLine other) :
    heredocBody marker (inside ++ marker ++ other) = some (inside, other) := by
  induction h using heredocBody_induction with
  | closes =>
    have line := Text.splitLine_append_of_notMem (feed_notMem_marker chars) other
    rw [List.nil_append, heredocBody_closing line (closingLine?_marker nonempty chars closes),
      Text.splitLine_append]
  | @goesOn text lines _ notClosing more _ ih =>
    -- The line ended with a feed, so it is the same line in front of other text.
    have line := Text.splitLine_append_of_more more (lines ++ marker ++ other)
    have further : lines ++ marker ++ other ≠ [] := by simp [nonempty]
    rw [List.append_assoc, List.append_assoc, ← List.append_assoc lines]
    exact heredocBody_line line notClosing further ih

/-- The heredoc is one that the rule for heredocs takes from some text. -/
def IsHeredoc (doc : Heredoc) : Prop :=
  ∃ text rest, heredoc text = .matched doc rest

/-- A heredoc: its first line, its lines and its marker. -/
theorem heredoc_matched_iff {text rest : Text} {doc : Heredoc} :
    heredoc text = .matched doc rest
      ↔ ∃ behind, heredocHead text = .matched (doc.indented, doc.marker) behind
          ∧ heredocBody doc.marker behind = some (doc.body, rest) := by
  obtain ⟨marker, indented, content⟩ := doc
  refine bind_matched_iff.trans ⟨?_, ?_⟩
  · rintro ⟨⟨dash, word⟩, behind, head, lines⟩
    dsimp only at lines
    split at lines
    · next found =>
      cases lines
      exact ⟨behind, head, found⟩
    · cases lines
  · rintro ⟨behind, head, lines⟩
    refine ⟨(indented, marker), behind, head, ?_⟩
    dsimp only at lines ⊢
    rw [lines]

/-- A heredoc starts with its marker, which ends its line. -/
theorem heredocHead_matched_iff {text rest marker : Text} {indented : Bool} :
    heredocHead text = .matched (indented, marker) rest
      ↔ ∃ behind, text = "<<".toList ++ (if indented then ['-'] else []) ++ marker ++ behind
          ∧ marker ≠ [] ∧ (∀ c ∈ marker, isMarkerChar c = true) ∧ Text.Stops isMarkerChar behind
          ∧ Text.trimInline behind = '\n' :: rest := by
  simp only [heredocHead, bind_matched_iff, word_matched_iff, takeWhile1_matched_iff,
    inlineWhitespace_apply, char_matched_iff, pure_matched_iff, Reply.matched.injEq]
  constructor
  · rintro ⟨_, _, ⟨rfl, rfl⟩, dash, behindDash, dashes, marker, behind,
      ⟨rfl, nonempty, all, stops⟩, _, _, ⟨-, rfl⟩, _, tail, ⟨feed, -⟩, same, rfl⟩
    cases same
    refine ⟨behind, ?_, nonempty, all, stops, feed⟩
    rcases optional_matched_iff.mp dashes with ⟨c, rfl, takes⟩ | ⟨rfl, -, rfl⟩
    · obtain ⟨rfl, -⟩ := char_matched_iff.mp takes
      simp
    · simp
  · rintro ⟨behind, rfl, nonempty, all, stops, feed⟩
    refine ⟨_, _, ⟨by rw [List.append_assoc, List.append_assoc], rfl⟩,
      if indented then some '-' else none, marker ++ behind, ?_, marker, behind,
      ⟨rfl, nonempty, all, stops⟩, (), _, ⟨trivial, rfl⟩, '\n', rest, ⟨feed, rfl⟩, ?_, rfl⟩
    · rw [optional_matched_iff]
      cases indented with
      | true => exact .inl ⟨'-', rfl, by simp⟩
      | false =>
        refine .inr ⟨rfl, mismatches_char_iff.mpr ?_, rfl⟩
        -- Without a dash the marker comes next, and a dash is no character of it.
        obtain ⟨c, marker, rfl⟩ := List.exists_cons_of_ne_nil nonempty
        rintro head
        obtain rfl : c = '-' := by simpa using head
        exact absurd (all '-' (by simp)) (by decide)
    · cases indented <;> rfl

/-- The first line of a heredoc, with the line feed that ends it. -/
structure IsHeredocLine (marker : Text) (indented : Bool) (line : Text) : Prop where
  nonempty : marker ≠ []
  chars : ∀ c ∈ marker, isMarkerChar c = true
  spelled : ∃ space : Text, (∀ c ∈ space, Text.isInline c = true)
    ∧ line = "<<".toList ++ (if indented then ['-'] else []) ++ marker ++ space ++ ['\n']

/-- The first line of a heredoc is taken with its line feed. -/
theorem isHeredocLine_of_matched {text rest marker : Text} {indented : Bool}
    (h : heredocHead text = .matched (indented, marker) rest) :
    ∃ line, IsHeredocLine marker indented line ∧ text = line ++ rest := by
  obtain ⟨behind, rfl, nonempty, chars, -, feed⟩ := heredocHead_matched_iff.mp h
  have split : behind = behind.takeWhile Text.isInline ++ '\n' :: rest := by
    conv_lhs => rw [← List.takeWhile_append_dropWhile (p := Text.isInline) (l := behind)]
    exact congrArg _ feed
  refine ⟨_, ⟨nonempty, chars, behind.takeWhile Text.isInline,
    fun c hc => List.mem_takeWhile_imp hc, rfl⟩, ?_⟩
  conv_lhs => rw [split]
  simp only [List.append_assoc, List.singleton_append]

/-- A heredoc is read back where its closing marker closes the line. -/
theorem heredoc_append {doc : Heredoc} (h : IsHeredoc doc) (level : Nat) {rest : Text}
    (closes : ClosesLine rest) :
    heredoc (doc.source (.block level) ++ rest) = .matched doc rest := by
  obtain ⟨text, tail, found⟩ := h
  obtain ⟨behind, head, lines⟩ := heredoc_matched_iff.mp found
  obtain ⟨-, -, nonempty, all, -, -⟩ := heredocHead_matched_iff.mp head
  refine heredoc_matched_iff.mpr ⟨doc.body ++ doc.marker ++ rest, ?_,
    heredocBody_append nonempty all lines closes⟩
  refine heredocHead_matched_iff.mpr ⟨'\n' :: (doc.body ++ doc.marker ++ rest), ?_, nonempty, all,
    (Text.stops_cons ..).mpr (by decide), ?_⟩
  · simp [Heredoc.source]
  · exact Text.trimInline_of_stops ((Text.stops_cons ..).mpr (by decide))

/-- What a closing marker stands in front of may follow it. -/
theorem closesLine_of_closingLine? {marker text tail : Text} (nonempty : marker ≠ [])
    (chars : ∀ c ∈ marker, isMarkerChar c = true)
    (h : closingLine? marker text.splitLine.1 = some tail) :
    ClosesLine (tail ++ text.splitLine.2) := by
  unfold closingLine? at h
  split at h
  · next behind found =>
    split at h
    · next closes =>
      cases h
      obtain ⟨space, -, split⟩ := Text.trimStart_split text.splitLine.1
      have line : text.splitLine.1 = space ++ marker ++ tail := by
        rw [List.append_assoc, List.isPrefixOf?_eq_some_iff_append_eq.mp found, ← split]
      -- A feed would end the line, and something of the marker would stand behind it.
      have notFeed : '\n' ∉ space ++ marker := by
        intro feed
        rcases List.mem_append.mp feed with feed | feed
        · have line := line.trans (List.append_assoc ..)
          exact nonempty (List.append_eq_nil_iff.mp (Text.eq_nil_of_feed_mem line feed)).1
        · exact feed_notMem_marker chars feed
      rw [ClosesLine, Text.splitLine_back line notFeed]
      exact closes
    · cases h
  · cases h

/-- Where a heredoc was read, what follows closes its line. -/
theorem closesLine_of_heredoc {text rest : Text} {doc : Heredoc}
    (h : heredoc text = .matched doc rest) : ClosesLine rest := by
  obtain ⟨behind, head, lines⟩ := heredoc_matched_iff.mp h
  obtain ⟨-, -, nonempty, chars, -, -⟩ := heredocHead_matched_iff.mp head
  clear head h
  generalize doc.body = inside at lines
  induction lines using heredocBody_induction with
  | closes found => exact closesLine_of_closingLine? nonempty chars found
  | goesOn _ _ _ ih => exact ih

/-! ### The lines of a heredoc -/

/-- A line that closes a heredoc is white space, the marker and what may follow it. -/
theorem closingLine?_split {marker text tail : Text} (nonempty : marker ≠ [])
    (h : closingLine? marker text.splitLine.1 = some tail) :
    ∃ indent : Text, (∀ c ∈ indent, Text.isInline c = true)
      ∧ text = indent ++ marker ++ (tail ++ text.splitLine.2) := by
  unfold closingLine? at h
  split at h
  · next behind found =>
    split at h
    · cases h
      obtain ⟨indent, isSpace, split⟩ := Text.trimStart_split text.splitLine.1
      have line : text.splitLine.1 = indent ++ (marker ++ tail) := by
        rw [List.isPrefixOf?_eq_some_iff_append_eq.mp found, ← split]
      refine ⟨indent, fun c hc => ?_, ?_⟩
      · -- A line feed would be the last character of the line, and the marker comes behind.
        have notFeed : c ≠ '\n' := by
          rintro rfl
          exact nonempty (List.append_eq_nil_iff.mp (Text.eq_nil_of_feed_mem line hc)).1
        simpa [Text.isInline, notFeed] using isSpace c hc
      · calc
          text = text.splitLine.1 ++ text.splitLine.2 := (Text.splitLine_append text).symm
          _ = indent ++ marker ++ (tail ++ text.splitLine.2) := by simp [line]
    · cases h
  · cases h

/-- An empty line closes no heredoc. -/
theorem closingLine?_nil {marker : Text} (nonempty : marker ≠ []) : closingLine? marker [] = none := by
  obtain ⟨c, rest, rfl⟩ := List.exists_cons_of_ne_nil nonempty
  rfl

/-- A heredoc never ends exactly when none of the lines closes it. -/
theorem heredocBody_eq_none_iff {marker text : Text} (nonempty : marker ≠ []) :
    heredocBody marker text = none ↔ ∀ line ∈ text.lines, closingLine? marker line = none := by
  fun_induction heredocBody marker text with
  | case1 text tail closes =>
    have some : text ≠ [] := by
      rintro rfl
      simp [Text.splitLine, closingLine?_nil nonempty] at closes
    rw [Text.lines_of_ne_nil some]
    simp [closes]
  | case2 text goesOn last =>
    -- The last line is no line at all where the text is empty.
    by_cases empty : text = []
    · simp [empty, Text.lines]
    · rw [Text.lines_of_ne_nil empty, last]
      simp [goesOn, Text.lines]
  | case3 text goesOn more shorter ih =>
    have some : text ≠ [] := by
      rintro rfl
      exact more rfl
    rw [Option.map_eq_none_iff, ih, Text.lines_of_ne_nil some]
    simp [goesOn]

/-- The body of a heredoc: lines that do not close it, each with its line feed. -/
structure IsHeredocBody (marker inside : Text) : Prop where
  ends : inside = [] ∨ ['\n'] <:+ inside
  goesOn : ∀ line ∈ inside.lines, closingLine? marker line = none

/-- What a heredoc takes behind its first line is its body and the marker behind white space. -/
theorem heredocBody_shape {marker text inside after : Text} (nonempty : marker ≠ [])
    (h : heredocBody marker text = some (inside, after)) :
    IsHeredocBody marker inside ∧ ∃ indent : Text, (∀ c ∈ indent, Text.isInline c = true)
      ∧ text = inside ++ (indent ++ marker ++ after) := by
  induction h using heredocBody_induction with
  | closes found => exact ⟨⟨.inl rfl, by simp [Text.lines]⟩, closingLine?_split nonempty found⟩
  | goesOn notClosing more _ ih =>
    obtain ⟨⟨ends, noneCloses⟩, indent, isSpace, split⟩ := ih
    refine ⟨⟨.inr ?_, ?_⟩, indent, isSpace, ?_⟩
    -- A line with others behind it ends with its line feed.
    · have feed := Text.feed_suffix_splitLine more
      rcases ends with rfl | ends
      · rwa [List.append_nil]
      · exact ends.trans (List.suffix_append ..)
    · rw [Text.lines_splitLine_append more]
      simpa [notClosing] using noneCloses
    · rw [List.append_assoc, ← split, Text.splitLine_append]

/-! ### Comments -/

/-- The marker that closes a bracketed comment. -/
def closingMarker : Text := "*/".toList

/-- A character in front of which the word does not stand is passed over. -/
theorem splitAtWord_cons {word text : Text} {c : Char}
    (notHere : word.isPrefixOf? (c :: text) = none) :
    Text.splitAtWord (c :: text) word
      = (Text.splitAtWord text word).map fun (before, after) => (c :: before, after) := by
  rw [Text.splitAtWord.eq_def, notHere]

/-- The marker is found right after a text that does not hold it. -/
theorem splitAtWord_closingMarker {text : Text} (h : ¬ closingMarker <:+: text) (rest : Text) :
    Text.splitAtWord (text ++ closingMarker ++ rest) closingMarker = some (text, rest) := by
  induction text with
  | nil => rfl
  | cons c text ih =>
    have later : ¬ closingMarker <:+: text := fun inside =>
      h (inside.trans (List.suffix_cons c text).isInfix)
    have notHere : closingMarker.isPrefixOf? (c :: text ++ closingMarker ++ rest) = none := by
      rw [Option.eq_none_iff_forall_not_mem]
      intro behind found
      have starts := List.isPrefixOf?_eq_some_iff_append_eq.mp found
      -- Two characters can start the marker: both in the text, or one in front of the marker
      -- itself.
      cases text with
      | nil => simp [closingMarker] at starts
      | cons d text =>
        refine h ⟨[], text, ?_⟩
        simp [closingMarker] at starts ⊢
        exact ⟨starts.1, starts.2.1⟩
    rw [List.cons_append, List.cons_append] at notHere ⊢
    rw [splitAtWord_cons notHere, ih later]
    rfl

/-- What stands before the first marker does not hold it. -/
theorem not_infix_of_splitAtWord {text before after : Text}
    (h : text.splitAtWord closingMarker = some (before, after)) :
    ¬ closingMarker <:+: before := by
  induction text generalizing before with
  | nil => cases h
  | cons c text ih =>
    cases here : closingMarker.isPrefixOf? (c :: text) with
    | some behind =>
      rw [Text.splitAtWord.eq_def, here] at h
      cases h
      simp [closingMarker]
    | none =>
      rw [splitAtWord_cons here] at h
      obtain ⟨⟨front, tail⟩, found, same⟩ := Option.map_eq_some_iff.mp h
      cases same
      rw [List.infix_cons_iff]
      -- The marker would be found at this place already, or it is inside what comes later.
      rintro (⟨back, starts⟩ | inside)
      · have whole := splitAtWord_append found
        have : closingMarker.isPrefixOf? (c :: text) = some (back ++ closingMarker ++ after) := by
          rw [List.isPrefixOf?_eq_some_iff_append_eq, ← whole, ← List.append_assoc,
            ← List.append_assoc, starts]
          simp
        simp [this] at here
      · exact ih found inside

/-- The comment is one that the rule for comments takes from some text: one that ends with its line
has no line feed, and a bracketed one does not hold the marker that closes it. -/
def IsComment : Node → Prop
  | .comment _ text => '\n' ∉ text
  | .multilineComment text => ¬ closingMarker <:+: text
  | _ => False

/-- The style of a comment is told by its marker. -/
theorem commentStyle_matched_iff {text rest : Text} {style : CommentStyle} :
    commentStyle text = .matched style rest ↔ text = style.marker ++ rest := by
  simp only [commentStyle, orElse_matched_iff, bind_matched_iff, word_matched_iff,
    pure_matched_iff]
  constructor
  · rintro (⟨_, _, ⟨rfl, -⟩, rfl, rfl⟩ | ⟨-, _, _, ⟨rfl, -⟩, rfl, rfl⟩) <;> rfl
  · rintro rfl
    cases style with
    | hash => exact .inl ⟨_, _, ⟨rfl, rfl⟩, rfl, rfl⟩
    | doubleSlash =>
      refine .inr ⟨Mismatches.bind (mismatches_word_iff.mpr ?_) _, _, _, ⟨rfl, rfl⟩, rfl, rfl⟩
      simp [CommentStyle.marker]

/-- A line comment takes all that is left of its line. -/
theorem lineComment_matched_iff {text rest : Text} {node : Node} :
    lineComment text = .matched node rest
      ↔ ∃ style content, node = .comment style content
          ∧ text = CommentStyle.marker style ++ content ++ rest ∧ '\n' ∉ content
          ∧ Text.Stops (· != '\n') rest := by
  simp only [lineComment, bind_matched_iff, takeWhile_matched_iff, pure_matched_iff]
  constructor
  · rintro ⟨style, behind, marker, content, tail, ⟨rfl, all, stops⟩, rfl, rfl⟩
    refine ⟨style, content, rfl, ?_, fun feed => by simpa using all _ feed, stops⟩
    rw [commentStyle_matched_iff.mp marker, List.append_assoc]
  · rintro ⟨style, content, rfl, rfl, noFeed, stops⟩
    refine ⟨style, content ++ rest, ?_, content, rest, ⟨rfl, fun c hc => ?_, stops⟩, rfl, rfl⟩
    · rw [commentStyle_matched_iff, List.append_assoc]
    · rw [bne_iff_ne]
      rintro rfl
      exact noFeed hc

/-- A comment in brackets goes up to the first closing marker. -/
theorem bracketedComment_matched_iff {text rest : Text} {node : Node} :
    bracketedComment text = .matched node rest
      ↔ ∃ content, node = .multilineComment content
          ∧ text = "/*".toList ++ content ++ closingMarker ++ rest ∧ ¬ closingMarker <:+: content := by
  refine bind_matched_iff.trans ⟨?_, ?_⟩
  · rintro ⟨_, behind, opens, closes⟩
    obtain ⟨rfl, -⟩ := word_matched_iff.mp opens
    split at closes
    · next found =>
      cases closes
      exact ⟨_, rfl, by simp [← splitAtWord_append found, closingMarker],
        not_infix_of_splitAtWord found⟩
    · cases closes
  · rintro ⟨content, rfl, rfl, noMarker⟩
    refine ⟨_, content ++ closingMarker ++ rest, word_matched_iff.mpr ⟨by simp, rfl⟩, ?_⟩
    rw [show "*/".toList = closingMarker from rfl, splitAtWord_closingMarker noMarker rest]

/-- What the rule for comments takes is a comment. -/
theorem isComment_of_matched {text rest : Text} {node : Node}
    (h : comment text = .matched node rest) : IsComment node := by
  rcases orElse_matched_iff.mp h with line | ⟨-, bracketed⟩
  · obtain ⟨style, content, rfl, -, noFeed, -⟩ := lineComment_matched_iff.mp line
    exact noFeed
  · obtain ⟨content, rfl, -, noMarker⟩ := bracketedComment_matched_iff.mp bracketed
    exact noMarker

/-- A comment that ends with its line is read back where the line ends. -/
theorem comment_append {style : CommentStyle} {text rest : Text} (h : '\n' ∉ text)
    (ends : Text.Stops (· != '\n') rest) :
    comment (style.marker ++ text ++ rest) = .matched (.comment style text) rest :=
  orElse_of_matched (lineComment_matched_iff.mpr ⟨style, text, rfl, rfl, h, ends⟩) _

/-- A bracketed comment is read back before any text. -/
theorem multilineComment_append {text : Text} (h : ¬ closingMarker <:+: text) (rest : Text) :
    comment ("/*".toList ++ text ++ "*/".toList ++ rest) = .matched (.multilineComment text) rest := by
  have noLine : lineComment.Mismatches ("/*".toList ++ text ++ "*/".toList ++ rest) := by
    refine Mismatches.bind (mismatches_orElse_iff.mpr ⟨Mismatches.bind ?_ _, Mismatches.bind ?_ _⟩) _
    · simp [mismatches_word_iff, CommentStyle.marker]
    · simp [mismatches_word_iff, CommentStyle.marker]
  rw [comment, orElse_of_mismatches noLine]
  exact bracketedComment_matched_iff.mpr ⟨text, rfl, rfl, h⟩

/-- A text that starts neither with a hash sign nor with a slash is no comment. -/
theorem mismatches_comment {text : Text} (noHash : text.head? ≠ some '#')
    (noSlash : text.head? ≠ some '/') : comment.Mismatches text := by
  have noWord {c : Char} {tail : Text} (h : text.head? ≠ some c) :
      (word (c :: tail)).Mismatches text := by
    rw [mismatches_word_iff]
    rintro ⟨rest, rfl⟩
    exact h rfl
  refine mismatches_orElse_iff.mpr ⟨Mismatches.bind ?_ _, Mismatches.bind (noWord noSlash) _⟩
  exact mismatches_orElse_iff.mpr ⟨Mismatches.bind (noWord noHash) _,
    Mismatches.bind (noWord noSlash) _⟩

end HclSyntax.Grammar
