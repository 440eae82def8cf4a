import Mathlib
import HclSyntax.Proofs.LineBreak.Declaration
import HclSyntax.Proofs.Parse.Basic

/-!
# `HclSyntax.Proofs.Parse.LineBreak`: a line feed at the end of a template

The end of a template and the end of its last line are the same: a template that is read is also read
with a line feed behind it, as the same document (`parse_lineFeed`).

The grammar asks for the end of the text in many ways, and some of its rules do differ behind the
line feed: the keyword of a for expression needs white space behind it, and so does the word `in`,
and the first line of a heredoc has to end. Each of them turns a mismatch into a fault only where the
declarations leave something of the text (`Grammar.wavers_inner`), and such a text is not read.
-/

set_option autoImplicit false

namespace HclSyntax

open Grammar

/-- Declarations that leave nothing but white space are the same with a line feed behind them. -/
theorem declarations_feed {text rest : Text} {found : List Node}
    (h : declarations text = .matched found rest) (blank : rest.trimStart = []) :
    ∃ broken, declarations (text ++ ['\n']) = .matched found broken ∧ broken.trimStart = [] := by
  have follows : (declarations text).Follows False Leftover (declarations (text ++ ['\n'])) :=
    (wavers_inner (text.length + 1)).2.follows (Nat.lt_succ_self _) (.feed text)
  rw [h] at follows
  generalize declarations (text ++ ['\n']) = reply at follows ⊢
  cases follows with
  | @matched _ _ broken hbroken =>
    refine ⟨broken, rfl, ?_⟩
    have spaces := hbroken.trimStart
    rw [blank] at spaces
    rcases spaces.nil with feed | nothing
    · -- A line feed is white space, so it is not left of what was trimmed.
      have visible := Text.stops_trimStart broken '\n' (feed ▸ rfl)
      exact absurd visible (by decide)
    · exact nothing
  | falters leftover =>
    obtain ⟨c, tail, start, -⟩ := leftover
    rw [blank] at start
    cases start

/-- A template is read as the same document with a line feed behind it. -/
theorem parse_lineFeed {text : Text} {document : Document} (h : parse text = .ok document) :
    parse (text ++ ['\n']) = .ok document := by
  obtain ⟨rest, found, blank⟩ := declarations_of_parse h
  obtain ⟨broken, again, nothing⟩ := declarations_feed found blank
  exact parse_of_declarations again nothing

/-- A heredoc with its marker at the end of the text. -/
theorem parse_lineFeed_heredoc :
    ∃ document : Document,
      document.declarations
        = [.property .heredoc (.bare ['a']) (.heredoc ⟨['E'], false, ['x', '\n']⟩)]
      ∧ parse "a = <<E\nx\nE".toList = .ok document
      ∧ parse ("a = <<E\nx\nE".toList ++ ['\n']) = .ok document := by
  have reads : parse "a = <<E\nx\nE".toList
      = .ok ⟨[.property .heredoc (.bare ['a']) (.heredoc ⟨['E'], false, ['x', '\n']⟩)]⟩ := by cbv
  exact ⟨_, rfl, reads, parse_lineFeed reads⟩

end HclSyntax
