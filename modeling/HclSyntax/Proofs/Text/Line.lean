import HclSyntax.Text.Basic
import Mathlib.Data.List.Infix
import Mathlib.Tactic.Conv

/-!
# `HclSyntax.Proofs.Text.Line`: the lines of a text

`Text.splitLine` cuts off the first line of a text, with the line feed that ends it. `Text.lines` are
all its lines, cut the same way (`lines_of_ne_nil`), so only the last of them may lack its line feed.
A line that something follows is the same line in front of any other text
(`splitLine_append_of_more`, `lines_splitLine_append`).
-/

set_option autoImplicit false

namespace HclSyntax.Text

/-! ### The first line -/

/-- A line feed at the start is a line of its own. -/
theorem splitLine_feed (rest : Text) : splitLine ('\n' :: rest) = (['\n'], rest) := by
  simp [splitLine]

/-- Any other character belongs to the line that follows it. -/
theorem splitLine_cons {c : Char} (h : c ≠ '\n') (rest : Text) :
    splitLine (c :: rest) = (c :: rest.splitLine.1, rest.splitLine.2) := by
  rw [splitLine, if_neg h]
  rfl

/-- A text without a line feed is the start of the first line. -/
theorem splitLine_append_of_notMem {front : Text} (h : '\n' ∉ front) (text : Text) :
    (front ++ text).splitLine = (front ++ text.splitLine.1, text.splitLine.2) := by
  induction front with
  | nil => rfl
  | cons c front ih =>
    have notFeed : c ≠ '\n' := fun same => h (by simp [same])
    rw [List.cons_append, splitLine_cons notFeed, ih fun mem => h (List.mem_cons_of_mem _ mem)]
    rfl

/-- A first line that something follows is the first line of any text that starts with it. -/
theorem splitLine_append_of_more {text : Text} (h : text.splitLine.2 ≠ []) (other : Text) :
    (text.splitLine.1 ++ other).splitLine = (text.splitLine.1, other) := by
  induction text with
  | nil => exact absurd rfl h
  | cons c rest ih =>
    by_cases feed : c = '\n'
    · rw [feed, splitLine_feed, List.singleton_append, splitLine_feed]
    · rw [splitLine_cons feed] at h ⊢
      rw [List.cons_append, splitLine_cons feed, ih h]

/-- The line feed of a line is the last of its characters. -/
theorem eq_nil_of_feed_mem {text front back : Text} (line : text.splitLine.1 = front ++ back)
    (feed : '\n' ∈ front) : back = [] := by
  induction text generalizing front with
  | nil => exact (List.append_eq_nil_iff.mp line.symm).2
  | cons c text ih =>
    obtain ⟨d, front, rfl⟩ := List.exists_cons_of_ne_nil (List.ne_nil_of_mem feed)
    by_cases same : c = '\n'
    · rw [same, splitLine_feed] at line
      exact (List.append_eq_nil_iff.mp (List.cons.inj line).2.symm).2
    · rw [splitLine_cons same] at line
      obtain ⟨rfl, more⟩ := List.cons.inj line
      rcases List.mem_cons.mp feed with feed | feed
      · exact absurd feed.symm same
      · exact ih more feed

/-- An end of a line, with what follows the line, starts with that end as its line. -/
theorem splitLine_back {text front back : Text} (line : text.splitLine.1 = front ++ back)
    (h : '\n' ∉ front) : (back ++ text.splitLine.2).splitLine.1 = back := by
  have whole : text = front ++ (back ++ text.splitLine.2) := by
    rw [← List.append_assoc, ← line, splitLine_append]
  have first : text.splitLine.1 = front ++ (back ++ text.splitLine.2).splitLine.1 := by
    conv_lhs => rw [whole, splitLine_append_of_notMem h]
  exact (List.append_cancel_left (line.symm.trans first)).symm

/-- A first line that something follows ends with its line feed. -/
theorem feed_suffix_splitLine {text : Text} (h : text.splitLine.2 ≠ []) :
    ['\n'] <:+ text.splitLine.1 := by
  induction text with
  | nil => exact absurd rfl h
  | cons c rest ih =>
    by_cases feed : c = '\n'
    · rw [feed, splitLine_feed]
    · rw [splitLine_cons feed] at h ⊢
      exact (ih h).trans (List.suffix_cons c _)

/-! ### All lines -/

/-- The lines of a text, each with the line feed that ends it. -/
def lines : Text → List Text
  | [] => []
  | c :: rest =>
    if c = '\n' then [c] :: lines rest
    else
      match lines rest with
      | [] => [[c]]
      | line :: others => (c :: line) :: others

/-- The lines of a text that is not empty are its first line and those of what follows. -/
theorem lines_of_ne_nil {text : Text} (h : text ≠ []) :
    lines text = text.splitLine.1 :: lines text.splitLine.2 := by
  induction text with
  | nil => exact absurd rfl h
  | cons c rest ih =>
    by_cases feed : c = '\n'
    · rw [lines, if_pos feed, feed, splitLine_feed]
    · rw [lines, if_neg feed, splitLine_cons feed]
      by_cases last : rest = []
      · subst last
        rfl
      · rw [ih last]

/-- A first line that something follows is the first of the lines also before other lines. -/
theorem lines_splitLine_append {text : Text} (h : text.splitLine.2 ≠ []) (other : Text) :
    lines (text.splitLine.1 ++ other) = text.splitLine.1 :: lines other := by
  have line : text.splitLine.1 ≠ [] := by
    obtain ⟨front, same⟩ := feed_suffix_splitLine h
    simp [← same]
  rw [lines_of_ne_nil (List.append_ne_nil_of_left_ne_nil line other), splitLine_append_of_more h]

end HclSyntax.Text
