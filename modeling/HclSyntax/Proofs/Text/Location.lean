import Mathlib.Data.List.Induction
import Mathlib.Data.Prod.Lex
import Mathlib.Order.Monotone.Defs
import HclSyntax.Text.Location

/-!
# `HclSyntax.Proofs.Text.Location`: line and column identify a place

A byte offset of a text is a boundary if the bytes before it are whole characters. One character
more moves a place to the next column, or to the first column of the next line
(`placeAfter_lt_snoc`), so of two places the later one has the higher line, or the same line and the
higher column (`placeAfter_lt_append`).

`position_strictMonoOn` says the same of offsets: on the boundaries of a text `position` is strictly
monotone, it is injective there, and it counts line feeds and the characters behind the last one.
-/

set_option autoImplicit false

namespace HclSyntax.Text

/-- The bytes before the offset are whole characters of the text. -/
def IsBoundary (text : Text) (offset : Nat) : Prop :=
  ∃ before, before <+: text ∧ utf8Length before = offset

/-- The line and the column of the place right after `before`. Lines are compared first. -/
def placeAfter (before : Text) : ℕ ×ₗ ℕ :=
  toLex (lineAfter before, columnAfter before)

/-- The position of a boundary is the place after the characters before it. -/
theorem toLex_position {text before : Text} (h : before <+: text) :
    toLex (text.position (utf8Length before)) = placeAfter before := by
  obtain ⟨after, rfl⟩ := h
  rw [position, takeBytes_utf8Length, placeAfter]

/-! ### One character more -/

/-- A line feed starts a line, other characters do not. -/
theorem lineAfter_snoc (before : Text) (c : Char) :
    lineAfter (before ++ [c]) = if c = '\n' then lineAfter before + 1 else lineAfter before := by
  unfold lineAfter
  rw [List.count_append, List.count_singleton]
  split <;> simp_all

/-- Columns are counted from the start of the line. -/
theorem columnAfter_snoc (before : Text) (c : Char) :
    columnAfter (before ++ [c]) = if c = '\n' then 1 else columnAfter before + 1 := by
  unfold columnAfter
  rw [List.reverse_append, List.reverse_singleton, List.singleton_append, List.takeWhile_cons]
  by_cases feed : c = '\n' <;> simp [feed]

/-- A character moves the place on: to the next column, or over a line feed to the next line. -/
theorem placeAfter_lt_snoc (before : Text) (c : Char) :
    placeAfter before < placeAfter (before ++ [c]) := by
  rw [placeAfter, placeAfter, Prod.Lex.toLex_lt_toLex, lineAfter_snoc, columnAfter_snoc]
  by_cases feed : c = '\n'
  · left
    rw [if_pos feed]
    omega
  · right
    rw [if_neg feed, if_neg feed]
    exact ⟨rfl, Nat.lt_succ_self _⟩

/-- All text moves the place on. -/
theorem placeAfter_lt_append (before : Text) {further : Text} (nonempty : further ≠ []) :
    placeAfter before < placeAfter (before ++ further) := by
  induction further generalizing before with
  | nil => exact absurd rfl nonempty
  | cons c rest ih =>
    have step := placeAfter_lt_snoc before c
    rw [List.append_cons]
    cases rest with
    | nil => rwa [List.append_nil]
    | cons d more => exact step.trans (ih (before ++ [c]) (List.cons_ne_nil d more))

/-! ### The line of a place -/

/-- What stands behind the last line feed of a text, or all of it if there is none. -/
def IsLastLine (line before : Text) : Prop :=
  '\n' ∉ line ∧ (line = before ∨ ('\n' :: line) <:+ before)

/-- Behind a line feed the last line is empty. -/
theorem IsLastLine.feed (before : Text) : IsLastLine [] (before ++ ['\n']) :=
  ⟨List.not_mem_nil, .inr (List.suffix_append before ['\n'])⟩

/-- Any other character belongs to the last line. -/
theorem IsLastLine.snoc {line before : Text} (h : IsLastLine line before) {c : Char}
    (noFeed : c ≠ '\n') : IsLastLine (line ++ [c]) (before ++ [c]) := by
  obtain ⟨inside, whole⟩ := h
  refine ⟨by simp [inside, noFeed.symm], ?_⟩
  rcases whole with rfl | ⟨front, rfl⟩
  · exact .inl rfl
  · exact .inr ⟨front, by simp⟩

/-- The column counts the characters of the last line. -/
theorem exists_isLastLine (before : Text) :
    ∃ line, IsLastLine line before ∧ columnAfter before = 1 + line.length := by
  induction before using List.reverseRecOn with
  | nil => exact ⟨[], ⟨List.not_mem_nil, .inl rfl⟩, rfl⟩
  | append_singleton before c ih =>
    rw [columnAfter_snoc]
    by_cases feed : c = '\n'
    · subst feed
      exact ⟨[], .feed before, rfl⟩
    · obtain ⟨line, isLast, column⟩ := ih
      refine ⟨line ++ [c], isLast.snoc feed, ?_⟩
      rw [if_neg feed, column, List.length_append, List.length_singleton, Nat.add_assoc]

/-! ### Offsets -/

/-- The later of two boundaries has more characters before it. -/
theorem exists_append_of_utf8Length_lt {text before later : Text} (first : before <+: text)
    (second : later <+: text) (less : utf8Length before < utf8Length later) :
    ∃ further, further ≠ [] ∧ later = before ++ further := by
  rcases List.prefix_or_prefix_of_prefix first second with ⟨further, rfl⟩ | ⟨further, rfl⟩
  · refine ⟨further, ?_, rfl⟩
    rintro rfl
    rw [List.append_nil] at less
    exact absurd less (Nat.lt_irrefl _)
  · rw [utf8Length_append] at less
    omega

/-- On the boundaries of a text, line and column grow with the offset, line before column, and so
they determine it. The line is one more than the line feeds before the offset, the column one more
than the characters behind the last of them. -/
theorem position_strictMonoOn (text : Text) :
    StrictMonoOn (fun offset => toLex (text.position offset)) {offset | text.IsBoundary offset}
      ∧ Set.InjOn text.position {offset | text.IsBoundary offset}
      ∧ ∀ before, before <+: text → ∃ line, IsLastLine line before
          ∧ text.position (utf8Length before) = (1 + before.count '\n', 1 + line.length) := by
  -- Between two places stands some text, which only moves the position on.
  have monotone : StrictMonoOn (fun offset => toLex (text.position offset))
      {offset | text.IsBoundary offset} := by
    rintro _ ⟨before, first, rfl⟩ _ ⟨later, second, rfl⟩ less
    obtain ⟨further, nonempty, rfl⟩ := exists_append_of_utf8Length_lt first second less
    show toLex (text.position (utf8Length before))
      < toLex (text.position (utf8Length (before ++ further)))
    rw [toLex_position first, toLex_position second]
    exact placeAfter_lt_append before nonempty
  refine ⟨monotone, ?_, ?_⟩
  · intro offset first other second same
    exact monotone.injOn first second (congrArg toLex same)
  · intro before inside
    obtain ⟨line, isLast, column⟩ := exists_isLastLine before
    refine ⟨line, isLast, ?_⟩
    have place : text.position (utf8Length before) = (lineAfter before, columnAfter before) :=
      toLex_position inside
    rw [place, column, lineAfter, Nat.add_comm]

/-- Right before and right after a line feed, behind a character of two bytes. -/
theorem position_strictMonoOn_feed :
    (IsBoundary "ä\nö".toList 2 ∧ IsBoundary "ä\nö".toList 3 ∧ 2 < 3)
      ∧ toLex (position "ä\nö".toList 2) < toLex (position "ä\nö".toList 3)
      ∧ position "ä\nö".toList 2 = (1, 2) ∧ position "ä\nö".toList 3 = (2, 1) := by
  have first : IsBoundary "ä\nö".toList 2 := ⟨['ä'], ⟨['\n', 'ö'], rfl⟩, rfl⟩
  have second : IsBoundary "ä\nö".toList 3 := ⟨['ä', '\n'], ⟨['ö'], rfl⟩, rfl⟩
  have less : 2 < 3 := Nat.lt_succ_self 2
  exact ⟨⟨first, second, less⟩, (position_strictMonoOn "ä\nö".toList).1 first second less,
    by decide, by decide⟩

end HclSyntax.Text
