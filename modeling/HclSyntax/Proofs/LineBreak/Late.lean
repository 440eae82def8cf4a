import HclSyntax.Proofs.LineBreak.Steady

/-!
# `HclSyntax.Proofs.LineBreak.Late`: heredocs and for expressions at the end of the text

A heredoc and a for expression commit right behind white space that a text may end in front of: the
line feed behind the marker of a heredoc, and the white space behind the word `in`. On the text
itself they mismatch there, and with a line feed behind it they are a fault.

* A heredoc does so on a text that starts with two angle brackets (`wavers_heredoc`).
* A for expression does so on a text that its bracket does not close (`wavers_forLoop`). Nothing else
  that needs the closing bracket is read on such a text either (`refuses_closing`).
-/

set_option autoImplicit false

set_option synthInstance.maxSize 100000

namespace HclSyntax

namespace Rule

variable {α β : Type} {bound : Nat} {c : Char}

/-! ### Characters that are not taken -/

/-- The rule does not take the character. -/
class Spares (c : Char) (rule : Rule α) : Prop where
  spares {text rest : Text} {value : α} (h : rule text = .matched value rest) (mem : c ∈ text) :
    c ∈ rest

/-- What is taken is made of other characters. -/
theorem spares_of_split {rule : Rule α} (h : ∀ {text rest : Text} {value : α},
    rule text = .matched value rest → ∃ front, text = front ++ rest ∧ c ∉ front) : Spares c rule where
  spares found mem := by
    obtain ⟨front, rfl, without⟩ := h found
    exact (List.mem_append.mp mem).resolve_left without

instance (value : α) : Spares c (pure value : Rule α) :=
  ⟨fun h mem => (pure_matched_iff.mp h).2 ▸ mem⟩

instance {first : Rule α} {next : α → Rule β} [hfirst : Spares c first]
    [hnext : ∀ value, Spares c (next value)] : Spares c (first >>= next) where
  spares h mem := by
    obtain ⟨value, behind, found, more⟩ := bind_matched_iff.mp h
    exact (hnext value).spares more (hfirst.spares found mem)

instance {first second : Rule α} [hfirst : Spares c first] [hsecond : Spares c second] :
    Spares c (first <|> second) where
  spares h mem := by
    rcases orElse_matched_iff.mp h with found | ⟨-, found⟩
    · exact hfirst.spares found mem
    · exact hsecond.spares found mem

instance {rule : Rule α} [h : Spares c rule] : Spares c (optional rule) where
  spares found mem := by
    rcases optional_matched_iff.mp found with ⟨value, -, found⟩ | ⟨-, -, rfl⟩
    · exact h.spares found mem
    · exact mem

instance (accepts : Char → Bool) [h : Lacks c accepts] : Spares c (charWhere accepts) := by
  refine spares_of_split fun {text rest d} found => ?_
  obtain ⟨rfl, accepted⟩ := charWhere_matched_iff.mp found
  refine ⟨[d], rfl, fun mem => ?_⟩
  rw [← List.mem_singleton.mp mem, h.lacks] at accepted
  cases accepted

instance (d : Char) [Lacks c (· == d)] : Spares c (char d) :=
  inferInstanceAs (Spares c (charWhere _))

/-- A word does not take a character that is not in it. -/
theorem spares_word {expected : Text} (h : c ∉ expected) : Spares c (word expected) := by
  refine spares_of_split fun found => ?_
  obtain ⟨rfl, rfl⟩ := word_matched_iff.mp found
  exact ⟨_, rfl, h⟩

/-- A keyword does not take a character that is not in its word. -/
theorem spares_keyword {expected : Text} (h : c ∉ expected) : Spares c (keyword expected) := by
  refine spares_of_split fun found => ?_
  obtain ⟨rfl, rfl, -⟩ := keyword_matched_iff.mp found
  exact ⟨_, rfl, h⟩

instance (accepts : Char → Bool) [h : Lacks c accepts] : Spares c (takeWhile1 accepts) := by
  refine spares_of_split fun found => ?_
  obtain ⟨rfl, -, all, -⟩ := takeWhile1_matched_iff.mp found
  refine ⟨_, rfl, fun mem => ?_⟩
  simpa [h.lacks] using all c mem

instance [h : Lacks c isWhitespace] : Spares c whitespace := by
  refine spares_of_split fun {text rest _} found => ?_
  obtain rfl := whitespace_matched_iff.mp found
  obtain ⟨space, isSpace, split⟩ := Text.trimStart_split text
  refine ⟨space, split, fun mem => ?_⟩
  simpa [h.lacks] using isSpace c mem

/-- Behind a rule that spares the character, a fault comes up late where it is missing. -/
theorem Wavers.sparing {stuck : Text → Prop} {first : Rule α} {next : α → Rule β} [Descends first]
    [Steady bound first] [Spares c first] (hnext : ∀ value, Wavers (c ∉ ·) stuck bound (next value)) :
    Wavers (c ∉ ·) stuck bound (first >>= next) :=
  Wavers.behind hnext fun found without mem => without (Spares.spares found mem)

/-- Behind an opening bracket a fault comes up late where it does in what follows. -/
theorem Wavers.opening {late stuck : Text → Prop} (c : Char) [Lacks '\n' (· == c)]
    {next : Char → Rule β} (h : Wavers late stuck bound (next c)) :
    Wavers (fun text => ∃ rest, text = c :: rest ∧ late rest) stuck (bound + 1) (char c >>= next) := by
  have constant : char c >>= next = char c >>= fun _ => next c := by
    funext text
    rw [bind_apply, bind_apply]
    cases found : char c text with
    | matched d rest => rw [(char_matched_iff.mp found).2]
    | mismatch | committed => rfl
  rw [constant]
  refine Wavers.taken (fun found => Consumes.shortens found) (fun _ => h) fun found hlate => ?_
  obtain ⟨rfl, rfl⟩ := char_matched_iff.mp found
  exact ⟨_, rfl, hlate⟩

/-! ### Committing behind white space -/

/-- White space that the text ends in front of makes a fault late, when nothing that the rule behind
it matches is empty. -/
theorem wavers_space {next : Char → Rule β} [hnext : ∀ c, Steady bound (next c)]
    (ends : ∀ c, (next c).Refuses []) :
    Wavers (· = []) Never bound (charWhere isWhitespace >>= next) := by
  refine ⟨fun {text broken} short hbroken => ?_⟩
  cases text with
  | cons c rest =>
    obtain ⟨more, rfl, hmore⟩ := hbroken.cons
    rw [bind_apply, bind_apply]
    cases space : isWhitespace c with
    | false =>
      simp only [charWhere, space]
      exact .mismatch
    | true =>
      simp only [charWhere, space, if_true]
      have shorter : rest.length < bound := by
        rw [List.length_cons] at short
        omega
      exact ((hnext c).wavers.follows shorter hmore).mono (fun h => h.elim) fun _ => id
  | nil =>
    -- At the end of the text the line feed may be the white space, and nothing follows it.
    have refuses : (charWhere isWhitespace >>= next).Refuses broken := Refuses.behind fun c rest found => by
      obtain ⟨rfl, -⟩ := charWhere_matched_iff.mp found
      rcases hbroken.nil with same | same
      · obtain ⟨-, rfl⟩ := List.cons.inj same
        exact ends c
      · cases same
    cases again : (charWhere isWhitespace >>= next) broken with
    | mismatch => exact .mismatch
    | committed => exact .falters rfl
    | matched value rest => exact absurd again (refuses value rest)

end Rule

namespace Grammar

open Rule

variable {bound : Nat}

/-! ### Heredocs -/

/-- A line feed behind a text ends its only line, or stands behind other lines. -/
theorem splitLine_append_feed (text : Text) :
    (text ++ ['\n']).splitLine = (text.splitLine.1, text.splitLine.2 ++ ['\n'])
      ∨ text.splitLine.2 = [] ∧ (text ++ ['\n']).splitLine = (text.splitLine.1 ++ ['\n'], []) := by
  induction text with
  | nil => exact .inr ⟨rfl, rfl⟩
  | cons c rest ih =>
    by_cases feed : c = '\n'
    · subst feed
      exact .inl (by rw [List.cons_append, Text.splitLine_feed, Text.splitLine_feed])
    · rw [List.cons_append, Text.splitLine_cons feed, Text.splitLine_cons feed]
      rcases ih with same | ⟨last, same⟩
      · exact .inl (by rw [same])
      · exact .inr ⟨last, by rw [same]; rfl⟩

/-- A line feed may follow the closing marker. -/
theorem closingLine?_feed {marker line tail : Text} (nonempty : marker ≠ []) (noFeed : '\n' ∉ marker)
    (h : closingLine? marker line = some tail) :
    closingLine? marker (line ++ ['\n']) = some (tail ++ ['\n']) := by
  unfold closingLine? at h
  split at h
  · next after found =>
    -- The marker stands on the line, so the line feed is not all that is left of it.
    have visible : Text.trimStart line ≠ [] := by
      intro blank
      rw [blank] at found
      obtain ⟨c, marker, rfl⟩ := List.exists_cons_of_ne_nil nonempty
      cases found
    have again := Text.isPrefixOf?_feed noFeed (Text.trimStart line)
    rw [found] at again
    have feed : mayFollowMarker '\n' = true := by decide
    simp only [closingLine?, Text.trimStart_append_of_ne_nil visible, again, Option.map_some]
    split at h
    · next closes =>
      cases h
      simp [closes, feed]
    · cases h
  · cases h

/-- The lines of a heredoc are the same before a line feed. -/
theorem heredocBody_feed {marker text inside after : Text} (nonempty : marker ≠ [])
    (noFeed : '\n' ∉ marker) (h : heredocBody marker text = some (inside, after)) :
    heredocBody marker (text ++ ['\n']) = some (inside, after ++ ['\n']) := by
  induction h using heredocBody_induction with
  | @closes text tail found =>
    rcases splitLine_append_feed text with line | ⟨last, line⟩
    · rw [heredocBody_closing line found, List.append_assoc]
    · rw [heredocBody_closing line (closingLine?_feed nonempty noFeed found), last]
      simp
  | @goesOn text _ _ notClosing more _ ih =>
    have line := Text.splitLine_append_of_more more (text.splitLine.2 ++ ['\n'])
    rw [← List.append_assoc, Text.splitLine_append] at line
    exact heredocBody_line line notClosing (by simp) ih

/-- At the end of the text no heredoc has any lines. -/
theorem heredocBody_nil {marker : Text} (nonempty : marker ≠ []) : heredocBody marker [] = none := by
  obtain ⟨c, marker, rfl⟩ := List.exists_cons_of_ne_nil nonempty
  rw [heredocBody]
  rfl

/-- The first line of a heredoc is the same before a line feed. -/
theorem heredocHead_feed {text rest marker : Text} {indented : Bool}
    (h : heredocHead text = .matched (indented, marker) rest) :
    heredocHead (text ++ ['\n']) = .matched (indented, marker) (rest ++ ['\n']) := by
  obtain ⟨behind, rfl, nonempty, chars, stops, feed⟩ := heredocHead_matched_iff.mp h
  refine heredocHead_matched_iff.mpr ⟨behind ++ ['\n'], by simp, nonempty, chars, ?_, ?_⟩
  · cases behind with
    | nil => exact (Text.stops_cons ..).mpr (by decide)
    | cons c behind => simpa using stops
  · rw [Text.trimInline, Text.dropWhile_feed (by decide)]
    exact congrArg (· ++ ['\n']) feed

/-- Only the line feed behind the text makes a first line of its last one. -/
theorem heredocHead_of_feed {text rest marker : Text} {indented : Bool}
    (mismatch : heredocHead.Mismatches text)
    (h : heredocHead (text ++ ['\n']) = .matched (indented, marker) rest) :
    "<<".toList <+: text ∧ marker ≠ [] ∧ rest = [] := by
  obtain ⟨behind, shape, nonempty, chars, stops, feed⟩ := heredocHead_matched_iff.mp h
  rcases Text.feed_split shape with ⟨mem, -⟩ | ⟨more, rfl, rfl⟩
  · have dash : '\n' ∉ (if indented then ['-'] else [] : Text) := by cases indented <;> decide
    exact absurd mem (by simp [dash, feed_notMem_marker chars])
  · have starts : "<<".toList <+: "<<".toList ++ ((if indented then ['-'] else []) ++ marker ++ more) :=
      List.prefix_append _ _
    refine ⟨by simpa only [List.append_assoc] using starts, nonempty, ?_⟩
    rw [Text.trimInline, Text.dropWhile_feed (by decide)] at feed
    cases line : more.dropWhile Text.isInline with
    | nil =>
      rw [line] at feed
      exact (List.cons.inj feed).2.symm
    | cons c tail =>
      -- The line ended before, so it was a first line before.
      rw [line] at feed
      obtain ⟨rfl, -⟩ := List.cons.inj feed
      have stops : Text.Stops isMarkerChar more := by
        cases more with
        | nil => exact Text.stops_nil _
        | cons d more => simpa using stops
      exact absurd mismatch (not_mismatches_of_matched (heredocHead_matched_iff.mpr
        ⟨more, rfl, nonempty, chars, stops, line⟩))

/-- A heredoc may be a fault late, on a text that starts with two angle brackets. -/
theorem wavers_heredoc : Wavers (fun text => "<<".toList <+: text) Never bound heredoc := by
  refine ⟨fun {text broken} _ hbroken => ?_⟩
  cases hbroken with
  | skipped => exact (follows_nil heredoc).mono False.elim fun _ => id
  | feed =>
    rcases answers heredocHead text with mismatch | ⟨⟨indented, marker⟩, behind, head⟩
    -- The line feed may end the first line, and then the body is missing.
    · rcases answers heredocHead (text ++ ['\n']) with still | ⟨⟨indented, marker⟩, behind, head⟩
      · exact Mismatches.follows (mismatch.bind _) (still.bind _)
      · obtain ⟨starts, nonempty, rfl⟩ := heredocHead_of_feed mismatch head
        obtain ⟨place, gaveUp⟩ : heredoc.Mismatches text := mismatch.bind _
        rw [gaveUp, heredoc, bind_of_matched head]
        simp only [heredocBody_nil nonempty]
        exact .falters starts
    · obtain ⟨-, -, nonempty, chars, -, -⟩ := heredocHead_matched_iff.mp head
      rw [heredoc, bind_of_matched head, bind_of_matched (heredocHead_feed head)]
      cases lines : heredocBody marker behind with
      | none =>
        simp only [lines]
        exact .committed
      | some parts =>
        simp only [lines, heredocBody_feed nonempty (feed_notMem_marker chars) lines]
        exact .matched (.feed _)

/-! ### For expressions -/

/-- The keyword of a for expression is looked at like any other. -/
theorem forKeyword_bind {α : Type} (next : Unit → Rule α) :
    forKeyword >>= next = whitespace >>= fun _ => keyword "for".toList >>= fun _ => next () :=
  (bind_assoc ..).trans (congrArg (whitespace >>= ·) (funext fun _ => bind_assoc ..))

section Bindings

variable {closingBracket : Char} [Lacks closingBracket isNameChar]
  [Lacks closingBracket isWhitespace] [Lacks closingBracket (· == '(')]
  [Lacks closingBracket (· == ')')] [Lacks closingBracket (· == ',')]

instance : Spares closingBracket identifier := by
  unfold identifier
  infer_instance

instance : Spares closingBracket loopBindings := by
  rw [loopBindings_eq]
  infer_instance

end Bindings

/-- A for expression makes a fault late only where its bracket is never closed. -/
theorem wavers_forLoop (openingBracket : Char) {closingBracket : Char}
    [Lacks '\n' (· == openingBracket)] (listed : closingBracket ∈ ['}', ']']) :
    Wavers (fun text => ∃ rest, text = openingBracket :: rest ∧ closingBracket ∉ rest) Never
      (bound + 1) (forLoop openingBracket closingBracket) := by
  have apart : ∀ c ∈ ['}', ']'], isNameChar c = false ∧ isWhitespace c = false ∧ (c == '(') = false
      ∧ (c == ')') = false ∧ (c == ',') = false ∧ c ∉ "for".toList ∧ c ∉ "in".toList := by decide
  obtain ⟨name, space, opens, closes, comma, noFor, noIn⟩ := apart closingBracket listed
  have : Lacks closingBracket isNameChar := ⟨name⟩
  have : Lacks closingBracket isWhitespace := ⟨space⟩
  have : Lacks closingBracket (· == '(') := ⟨opens⟩
  have : Lacks closingBracket (· == ')') := ⟨closes⟩
  have : Lacks closingBracket (· == ',') := ⟨comma⟩
  have (bound : Nat) : Steady bound (word "in".toList) := steady_word (by decide)
  have : Spares closingBracket (word "in".toList) := spares_word noIn
  have : Spares closingBracket (keyword "for".toList) := spares_keyword noFor
  have (bound : Nat) : Steady bound (loopPart fun rest => rest.head? == some ':') :=
    steady_loopPart (feedFree_head ':')
  have (bound : Nat) : Steady bound (loopPart startsCondition) :=
    steady_loopPart feedFree_startsCondition
  -- The closing bracket is in none of the parts, so it stays missing up to the word `in`.
  unfold forLoop
  refine Wavers.opening openingBracket ?_
  rw [forKeyword_bind]
  refine Wavers.sparing fun _ => Wavers.keyword (by decide)
    (fun _ => (?_ : Wavers (closingBracket ∉ ·) Never bound _)) (fun _ => ⟨[], rfl⟩)
    fun found without mem => without (Spares.spares found mem)
  refine Wavers.sparing fun _ => Wavers.sparing fun _ => Wavers.sparing fun _ =>
    Wavers.sparing fun _ => (wavers_space fun c => ?_).mono ?_ fun _ => id
  -- At the end of the text there is no collection, so the fault behind `in` is late.
  · refine Refuses.behind fun _ rest space => Refuses.bind (fun inside after part => ?_) _
    obtain rfl := whitespace_matched_iff.mp space
    obtain ⟨split, -, c, tail, rfl, -⟩ := loopPart_matched_iff.mp part
    exact absurd (List.append_eq_nil_iff.mp split.symm).2 (List.cons_ne_nil c tail)
  · rintro text rfl
    exact List.not_mem_nil

/-- The keyword stands in both texts or in neither, unless it ends the first. -/
theorem forKeyword_broken {text broken : Text} (h : Text.Broken text broken) :
    ((∃ rest more, forKeyword text = .matched () rest ∧ forKeyword broken = .matched () more)
        ∨ forKeyword.Mismatches text ∧ forKeyword.Mismatches broken)
      ∨ text.trimStart = "for".toList ∧ forKeyword.Mismatches text
          ∧ forKeyword broken = .matched () ['\n'] := by
  have spaces := h.trimStart
  rcases answers forKeyword text with mismatch | ⟨_, rest, taken⟩
  · rcases answers forKeyword broken with still | ⟨_, more, taken⟩
    · exact .inl (.inr ⟨mismatch, still⟩)
    · obtain ⟨starts, c, tail, rfl, space⟩ := forKeyword_matched_iff.mp taken
      generalize start : text.trimStart = visible, again : broken.trimStart = other at spaces
      rw [again] at starts
      cases spaces with
      | skipped => cases starts
      | feed =>
        rcases Text.feed_split starts with ⟨feed, -⟩ | ⟨behind, same, rfl⟩
        · exact absurd feed (by decide)
        · cases behind with
          | nil =>
            rw [same] at taken
            exact .inr ⟨List.append_nil _, mismatch, taken⟩
          | cons d behind =>
            -- The white space behind the keyword is there without the line feed.
            obtain ⟨rfl, -⟩ := List.cons.inj same
            have taken : forKeyword text = .matched () (c :: behind) :=
              forKeyword_matched_iff.mpr ⟨start, c, behind, rfl, space⟩
            exact absurd mismatch (not_mismatches_of_matched taken)
  · obtain ⟨starts, c, tail, rfl, space⟩ := forKeyword_matched_iff.mp taken
    rw [starts] at spaces
    obtain ⟨more, again⟩ := spaces.append
    exact .inl (.inl ⟨c :: tail, c :: more, taken,
      forKeyword_matched_iff.mpr ⟨again, c, more, rfl, space⟩⟩)

/-- What must not start with the keyword mismatches behind the line feed when the keyword ends the
text, so it must not match there. -/
theorem Wavers.noKeyword {β : Type} {late stuck : Text → Prop} {next : Rule β}
    (h : Wavers late stuck bound next)
    (refuses : ∀ text, text.trimStart = "for".toList → next.Refuses text) :
    Wavers late stuck bound (notFollowedBy forKeyword >>= fun _ => next) := by
  refine ⟨fun {text broken} short hbroken => ?_⟩
  have blocked {text rest : Text} (taken : forKeyword text = .matched () rest) :
      (notFollowedBy forKeyword >>= fun _ => next).Mismatches text :=
    Mismatches.bind (mismatches_notFollowedBy_iff.mpr ⟨(), rest, taken⟩) fun _ => next
  have passed {text : Text} (mismatch : forKeyword.Mismatches text) :
      (notFollowedBy forKeyword >>= fun _ => next) text = next text :=
    bind_of_matched (show notFollowedBy forKeyword text = .matched () text from
      notFollowedBy_matched_iff.mpr ⟨mismatch, rfl⟩)
  -- The line feed may be the white space that the keyword needs.
  rcases forKeyword_broken hbroken with (⟨_, _, taken, again⟩ | ⟨mismatch, still⟩)
    | ⟨last, mismatch, taken⟩
  · exact (blocked taken).follows (blocked again)
  · rw [passed mismatch, passed still]
    exact h.follows short hbroken
  · obtain ⟨_, other⟩ := blocked taken
    rw [passed mismatch, other]
    cases found : next text with
    | matched value rest => exact absurd found (refuses text last value rest)
    | mismatch => exact .mismatch
    | committed => exact .committed

/-! ### Brackets that are never closed -/

/-- A bracket that does not stand in the text is not closed. -/
theorem refuses_closing {bracket : Char} {text : Text} (without : bracket ∉ text)
    (construct : Construct) : (closing bracket construct).Refuses text := by
  intro _ rest found
  have start := closing_matched_iff.mp found
  have inside := Text.trimStart_suffix text
  exact without (inside.subset (start ▸ List.mem_cons_self))

end Grammar

end HclSyntax
