import HclSyntax.Proofs.Grammar.Bracket
import HclSyntax.Proofs.Grammar.Number

/-!
# `HclSyntax.Proofs.Grammar.UnquotedText`: unquoted text and accessors are read back

Unquoted text and accessors are runs of pieces: indices and stretches of plain characters. A piece
looks one character ahead (`textPiece_looksAhead`, `accessorPart_looksAhead`), and so what one of the
two rules takes from some text it takes again before any text that does not go on with a piece
(`unquotedText_append`, `accessor_append`).

Unquoted text is the last form of term that is tried, so it must not look like an earlier one. That
it is no number is a property of the text alone (`mismatches_number_append`).
-/

set_option autoImplicit false

namespace HclSyntax.Grammar

open Rule

/-! ### Characters -/

/-- The characters that end unquoted text. -/
def delimiters : List Char :=
  ['"', '/', '%', '-', '+', '=', '|', '>', '<', '!', '&', '~', '^', ';', '\\', '\x27', ',', ')',
    '(', '}', '{', ']', '[', '?', ':', '\n']

/-- Letters and digits are characters of texts. -/
theorem isTextChar_of_isAlphanumeric {c : Char} (h : isAlphanumeric c = true) :
    isTextChar c = true := by
  have apart : ∀ d ∈ '#' :: delimiters, isAlphanumeric d = false := by decide
  have notDelimiter : isDelimiter c = false := by
    rw [← Bool.not_eq_true]
    intro delimiter
    have listed : c ∈ delimiters := List.contains_iff_mem.mp delimiter
    have := apart c (List.mem_cons_of_mem _ listed)
    simp [h] at this
  have notHash : c ≠ '#' := by
    rintro rfl
    exact absurd h (by decide)
  simp [isTextChar, notDelimiter, isWhitespace_of_isAlphanumeric h, notHash]

/-- The characters that continue a number are characters of unquoted text. -/
theorem isTextChar_of_continuesNumber {c : Char} (h : continuesNumber c = true) :
    isTextChar c = true := by
  simp only [continuesNumber, Bool.or_eq_true, beq_iff_eq] at h
  rcases h with (letter | rfl) | rfl
  · exact isTextChar_of_isAlphanumeric letter
  · decide
  · decide

/-! ### Unquoted text -/

/-- An index or a stretch of plain characters. -/
def textPiece : Rule Text :=
  listIndex <|> takeWhile1 isTextChar

/-- An index starts with a bracket. -/
theorem mismatches_listIndex {text : Text} (h : text.head? ≠ some '[') :
    listIndex.Mismatches text :=
  (((mismatches_char_iff.mpr h).bind _).suchThat _).bind _

/-- A piece of text is found again before any text that does not go on with it. -/
theorem textPiece_looksAhead : textPiece.LooksAhead isTextChar := by
  intro text piece rest h
  rcases orElse_matched_iff.mp h with index | ⟨-, run⟩
  · obtain ⟨same, nonempty, again⟩ := listIndex_looksAhead index
    exact ⟨same, nonempty, fun other _ =>
      orElse_of_matched (again other (.inr fun _ _ => rfl)) _⟩
  · obtain ⟨rfl, nonempty, all, stops⟩ := takeWhile1_matched_iff.mp run
    refine ⟨rfl, nonempty, fun other follows => ?_⟩
    have otherStops := stops.follow follows
    -- The run of plain characters does not start as an index does.
    have noIndex : listIndex.Mismatches (piece ++ other) := by
      refine mismatches_listIndex fun head => ?_
      obtain ⟨c, tail, rfl⟩ := List.exists_cons_of_ne_nil nonempty
      obtain rfl : c = '[' := by simpa using head
      exact absurd (all '[' (by simp)) (by decide)
    rw [textPiece, orElse_of_mismatches noIndex]
    exact takeWhile1_matched_iff.mpr ⟨rfl, nonempty, all, otherStops⟩

/-- Where neither a plain character nor an index follows there is no further piece. -/
theorem mismatches_textPiece {text : Text} (stops : Text.Stops isTextChar text)
    (noIndex : text.head? ≠ some '[') : textPiece.Mismatches text :=
  mismatches_orElse_iff.mpr ⟨mismatches_listIndex noIndex, mismatches_takeWhile1_iff.mpr stops⟩

/-- A text that starts with plain characters and goes on, if at all, with an index. -/
def StartsPlain (text : Text) : Prop :=
  ∃ run back, text = run ++ back ∧ (∀ c ∈ run, isTextChar c = true)
    ∧ (back = [] ∨ back.head? = some '[')

/-- Pieces of unquoted text start with plain characters and go on with an index. -/
theorem startsPlain_of_textPieces {text rest : Text} {pieces : List Text}
    (h : many textPiece text = .matched pieces rest) : StartsPlain pieces.flatten := by
  have each : ∀ piece ∈ pieces, piece.head? = some '[' ∨ ∀ c ∈ piece, isTextChar c = true :=
    forall_mem_of_many (fun {text piece rest} found => by
      rcases orElse_matched_iff.mp found with index | ⟨-, run⟩
      · obtain ⟨content, -, rfl, -⟩ := listIndex_matched_iff.mp index
        exact .inl rfl
      · exact .inr (takeWhile1_matched_iff.mp run).2.2.1) h
  clear h
  induction pieces with
  | nil => exact ⟨[], [], rfl, by simp, .inl rfl⟩
  | cons piece others ih =>
    obtain ⟨run, back, same, all, starts⟩ := ih fun p hp => each p (by simp [hp])
    rw [List.flatten_cons, same]
    -- Everything from the first index on is the second part, whatever its pieces are.
    rcases each piece (by simp) with index | plain
    · refine ⟨[], piece ++ (run ++ back), rfl, by simp, .inr ?_⟩
      rw [List.head?_append, index]
      rfl
    · refine ⟨piece ++ run, back, by simp, fun c hc => ?_, starts⟩
      rcases List.mem_append.mp hc with hc | hc
      · exact plain c hc
      · exact all c hc

/-- The text is one that the rule for unquoted text takes from some text. -/
def IsUnquotedText (text : Text) : Prop :=
  ∃ source rest, unquotedText source = .matched text rest

/-- An unquoted text is a first character and then any number of pieces. -/
theorem unquotedText_eq :
    unquotedText = charWhere (fun c => isTextChar c && c != '.' && c != '*') >>= fun first =>
      many textPiece >>= fun others => pure (first :: others.flatten) := rfl

/-- What the rule for unquoted text takes, and when it takes it again. -/
theorem unquotedText_shape {source text rest : Text}
    (h : unquotedText source = .matched text rest) :
    source = text ++ rest
      ∧ (∃ first tail, text = first :: tail ∧ isTextChar first = true ∧ first ≠ '.' ∧ first ≠ '*'
          ∧ StartsPlain tail)
      ∧ ∀ other : Text, Text.Stops isTextChar other → other.head? ≠ some '[' →
          unquotedText (text ++ other) = .matched text other := by
  rw [unquotedText_eq] at h
  simp only [bind_matched_iff, charWhere_matched_iff, pure_matched_iff] at h
  obtain ⟨first, _, ⟨rfl, accepted⟩, others, tail, more, rfl, rfl⟩ := h
  have plain := startsPlain_of_textPieces more
  obtain ⟨rfl, repeats⟩ := textPiece_looksAhead.many more
  refine ⟨by simp, ⟨first, others.flatten, rfl, ?_⟩, fun other stops noIndex => ?_⟩
  · simp only [Bool.and_eq_true, bne_iff_ne, ne_eq] at accepted
    exact ⟨accepted.1.1, accepted.1.2, accepted.2, plain⟩
  · rw [unquotedText_eq]
    simp only [bind_matched_iff, charWhere_matched_iff, pure_matched_iff]
    exact ⟨first, others.flatten ++ other, ⟨by simp, accepted⟩, others, other,
      repeats other stops (mismatches_textPiece stops noIndex), rfl, rfl⟩

/-- Where unquoted text ends no plain character follows. -/
theorem stops_of_unquotedText {source text rest : Text}
    (h : unquotedText source = .matched text rest) : Text.Stops isTextChar rest := by
  rw [unquotedText_eq] at h
  simp only [bind_matched_iff, charWhere_matched_iff, pure_matched_iff] at h
  obtain ⟨first, _, -, others, tail, more, -, rfl⟩ := h
  have ends := mismatches_of_many more
  exact mismatches_takeWhile1_iff.mp (mismatches_orElse_iff.mp ends).2

/-- Unquoted text is read back where no piece follows it. -/
theorem unquotedText_append {text : Text} (h : IsUnquotedText text) {rest : Text}
    (stops : Text.Stops isTextChar rest) (noIndex : rest.head? ≠ some '[') :
    unquotedText (text ++ rest) = .matched text rest := by
  obtain ⟨source, tail, found⟩ := h
  exact (unquotedText_shape found).2.2 rest stops noIndex

/-! ### Accessors -/

/-- An index or an attribute access. -/
def accessorPart : Rule Text :=
  listIndex <|> do
    let point ← char '.'
    let name ← takeWhile isTextChar
    return point :: name

/-- A part of an accessor is found again before any text that does not go on with it. -/
theorem accessorPart_looksAhead : accessorPart.LooksAhead isTextChar := by
  intro text piece rest h
  rcases orElse_matched_iff.mp h with index | ⟨-, access⟩
  · obtain ⟨same, nonempty, again⟩ := listIndex_looksAhead index
    exact ⟨same, nonempty, fun other _ =>
      orElse_of_matched (again other (.inr fun _ _ => rfl)) _⟩
  · simp only [bind_matched_iff, char_matched_iff, takeWhile_matched_iff, pure_matched_iff]
      at access
    obtain ⟨_, _, ⟨rfl, rfl⟩, name, tail, ⟨rfl, all, stops⟩, rfl, rfl⟩ := access
    refine ⟨rfl, by simp, fun other follows => ?_⟩
    have otherStops := stops.follow follows
    rw [accessorPart, orElse_of_mismatches (mismatches_listIndex (by simp))]
    simp only [bind_matched_iff, char_matched_iff, takeWhile_matched_iff, pure_matched_iff]
    exact ⟨'.', name ++ other, ⟨rfl, rfl⟩, name, other, ⟨rfl, all, otherStops⟩, rfl, rfl⟩

/-- The text is one that the rule for accessors takes from some text. -/
def IsAccessorText (text : Text) : Prop :=
  ∃ source rest, accessor source = .matched text rest

/-- Where neither an index nor an attribute access follows there is no accessor. -/
theorem mismatches_accessorPart {text : Text} (noIndex : text.head? ≠ some '[')
    (noPoint : text.head? ≠ some '.') : accessorPart.Mismatches text :=
  mismatches_orElse_iff.mpr ⟨mismatches_listIndex noIndex,
    Mismatches.bind (mismatches_char_iff.mpr noPoint) _⟩

/-- An accessor starts with a bracket or a point. -/
theorem mismatches_accessor {text : Text} (noIndex : text.head? ≠ some '[')
    (noPoint : text.head? ≠ some '.') : accessor.Mismatches text :=
  Mismatches.bind (Mismatches.bind (mismatches_accessorPart noIndex noPoint) _) _

/-- An accessor is one part or more. -/
theorem accessor_eq :
    accessor = many1 accessorPart >>= fun parts => pure parts.flatten := rfl

/-- An accessor is read part by part. -/
theorem accessor_matched_iff {source text rest : Text} :
    accessor source = .matched text rest
      ↔ ∃ first others behind, accessorPart source = .matched first behind
          ∧ many accessorPart behind = .matched others rest ∧ text = first ++ others.flatten := by
  rw [accessor_eq, many1]
  simp only [bind_matched_iff, pure_matched_iff]
  constructor
  · rintro ⟨_, _, ⟨first, behind, found, others, _, more, rfl, rfl⟩, rfl, rfl⟩
    exact ⟨first, others, behind, found, more, by simp⟩
  · rintro ⟨first, others, behind, found, more, rfl⟩
    exact ⟨_, _, ⟨first, behind, found, others, _, more, rfl, rfl⟩, by simp, rfl⟩

/-- What the rule for accessors takes, and when it takes it again. -/
theorem accessor_shape {source text rest : Text} (h : accessor source = .matched text rest) :
    source = text ++ rest ∧ (text.head? = some '[' ∨ text.head? = some '.')
      ∧ ∀ other : Text, Text.Stops isTextChar other → other.head? ≠ some '[' →
          accessor (text ++ other) = .matched text other := by
  obtain ⟨first, others, behind, found, more, rfl⟩ := accessor_matched_iff.mp h
  obtain ⟨rfl, nonempty, again⟩ := accessorPart_looksAhead found
  obtain ⟨rfl, repeats⟩ := accessorPart_looksAhead.many more
  have start : first.head? = some '[' ∨ first.head? = some '.' := by
    rcases orElse_matched_iff.mp found with index | ⟨-, access⟩
    · obtain ⟨content, -, rfl, -⟩ := listIndex_matched_iff.mp index
      exact .inl rfl
    · simp only [bind_matched_iff, char_matched_iff, pure_matched_iff] at access
      obtain ⟨_, _, ⟨-, rfl⟩, name, _, -, rfl, -⟩ := access
      exact .inr rfl
  refine ⟨by simp, ?_, fun other stops noIndex => ?_⟩
  · rw [List.head?_append]
    rcases start with start | start <;> simp [start]
  · have noPoint : other.head? ≠ some '.' := by
      intro point
      exact absurd (stops '.' point) (by decide)
    refine accessor_matched_iff.mpr ⟨first, others, others.flatten ++ other, ?_,
      repeats other stops (mismatches_accessorPart noIndex noPoint), rfl⟩
    rw [List.append_assoc]
    refine again _ ?_
    -- Behind the first part stands the next one, or what ends the accessor.
    cases hothers : others.flatten with
    | nil => exact .inr stops
    | cons c cs => exact .inl rfl

/-- An accessor is read back where no piece of one follows it. -/
theorem accessor_append {text : Text} (h : IsAccessorText text) {rest : Text}
    (stops : Text.Stops isTextChar rest) (noIndex : rest.head? ≠ some '[') :
    accessor (text ++ rest) = .matched text rest := by
  obtain ⟨source, tail, found⟩ := h
  exact (accessor_shape found).2.2 rest stops noIndex

end HclSyntax.Grammar
