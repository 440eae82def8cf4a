import Mathlib
import HclSyntax.Proofs.Grammar.Account
import HclSyntax.Proofs.Parse.Basic

/-!
# `HclSyntax.Proofs.Parse.Account`: nothing of a template is lost

The text of a template is what its tree keeps, piece by piece in the order of a walk, and between the
pieces there is nothing but white space, punctuation and the keywords of the grammar
(`parse_covers`). So reading loses no name, label or value, makes none up, keeps none twice and
changes no order, whatever alternatives were tried on the way.
-/

set_option autoImplicit false

namespace HclSyntax

open Grammar

/-- The source of a template that is read is made of the pieces its tree keeps, in the order in which
its nodes are visited, with gaps before, between and behind them. -/
theorem parse_covers {text : Text} {document : Document} (h : parse text = .ok document) :
    Covers document.root.pieces text := by
  obtain ⟨rest, found, ends⟩ := declarations_of_parse h
  obtain ⟨span, rfl, covers⟩ := (accounts_inner text).2 _ _ found
  obtain ⟨space, isSpace, split⟩ := Text.trimStart_split rest
  rw [ends, List.append_nil] at split
  rw [Document.root, Node.pieces_root, ← List.append_nil (List.flatMap ..)]
  exact covers.append (split ▸ .space isSpace)

/-- A block with a label, a comment and a quoted name in it. -/
theorem parse_covers_block :
    ∃ document, parse "dynamic a b \x7b# c\n\"d\": [1,]\x7d".toList = .ok document
      ∧ document.root.pieces = [.verbatim "a".toList, .label "b".toList,
          .comment .hash " c".toList, .quoted "d".toList, .verbatim "1".toList]
      ∧ Covers document.root.pieces "dynamic a b \x7b# c\n\"d\": [1,]\x7d".toList := by
  have found : parse "dynamic a b \x7b# c\n\"d\": [1,]\x7d".toList
      = .ok ⟨[.block ⟨.bare "a".toList, true, some "b".toList, none⟩
          [.comment .hash " c".toList,
            .property .list ⟨"d".toList, true⟩ (.list [.numberOrBool "1".toList])]]⟩ := by
    cbv
  exact ⟨_, found, rfl, parse_covers found⟩

end HclSyntax
