import HclSyntax.Proofs.Grammar.Recursion

/-!
# `HclSyntax.Proofs.Grammar.Operator`: operator symbols are read back

An operator symbol is printed between spaces. Before a space each of them is read back whole
(`operator_append`), although some start like others.
-/

set_option autoImplicit false

namespace HclSyntax.Grammar

open Rule

/-- The operator symbols. -/
def operatorSymbols : List Text :=
  [['>', '='], ['<', '='], ['!', '='], ['=', '='], ['&', '&'], ['|', '|'], ['/'], ['*'], ['%'],
    ['+'], ['-'], ['<'], ['>'], ['?'], [':']]

/-- The characters that operator symbols start with. -/
def startsOperator (c : Char) : Bool :=
  ['>', '<', '!', '=', '&', '|', '/', '*', '%', '+', '-', '?', ':'].contains c

/-- What is taken is one of the words. -/
theorem anyWord_matched {words : List Text} {text found rest : Text}
    (h : anyWord words text = .matched found rest) : text = found ++ rest ∧ found ∈ words := by
  induction words with
  | nil => cases h
  | cons expected others ih =>
    rcases orElse_matched_iff.mp h with first | ⟨-, later⟩
    · obtain ⟨rfl, rfl⟩ := word_matched_iff.mp first
      exact ⟨rfl, List.mem_cons_self⟩
    · obtain ⟨same, mem⟩ := ih later
      exact ⟨same, List.mem_cons_of_mem _ mem⟩

/-- What the rule for operators takes is an operator symbol. -/
theorem operator_matched {text symbol rest : Text} (h : operator text = .matched symbol rest) :
    text = symbol ++ rest ∧ symbol ∈ operatorSymbols := by
  have listed : ∀ s ∈ [">=".toList, "<=".toList, "!=".toList, "==".toList, "&&".toList,
      "||".toList], s ∈ operatorSymbols := by decide
  have single : ∀ c ∈ ['*', '%', '+', '-', '<', '>', '?', ':'], [c] ∈ operatorSymbols := by decide
  -- Two characters, a slash that starts no comment, or one of the other characters.
  rcases orElse_matched_iff.mp h with double | ⟨-, more⟩
  · obtain ⟨same, mem⟩ := anyWord_matched double
    exact ⟨same, listed symbol mem⟩
  · rcases orElse_matched_iff.mp more with slash | ⟨-, one⟩
    · simp only [bind_matched_iff, char_matched_iff, notFollowedBy_matched_iff,
        pure_matched_iff] at slash
      obtain ⟨_, _, ⟨rfl, rfl⟩, _, _, ⟨-, rfl⟩, rfl, rfl⟩ := slash
      exact ⟨rfl, by decide⟩
    · simp only [bind_matched_iff, oneOf_matched_iff, pure_matched_iff] at one
      obtain ⟨c, _, ⟨rfl, mem⟩, rfl, rfl⟩ := one
      exact ⟨rfl, single c mem⟩

/-- An operator symbol is read back before a space. -/
theorem operator_append {symbol : Text} (h : symbol ∈ operatorSymbols) (rest : Text) :
    operator (symbol ++ ' ' :: rest) = .matched symbol (' ' :: rest) := by
  simp only [operatorSymbols, List.mem_cons, List.not_mem_nil, or_false] at h
  rcases h with rfl | rfl | rfl | rfl | rfl | rfl | rfl | rfl | rfl | rfl | rfl | rfl | rfl | rfl
    | rfl <;> rfl

/-- An operator symbol starts like one. -/
theorem startsOperator_of_mem {symbol : Text} (h : symbol ∈ operatorSymbols) :
    ∃ c tail, symbol = c :: tail ∧ startsOperator c = true := by
  simp only [operatorSymbols, List.mem_cons, List.not_mem_nil, or_false] at h
  rcases h with rfl | rfl | rfl | rfl | rfl | rfl | rfl | rfl | rfl | rfl | rfl | rfl | rfl | rfl
    | rfl <;> exact ⟨_, _, rfl, by decide⟩

/-- A text that starts like no operator symbol has none at its front. -/
theorem mismatches_operator {text : Text} (stops : Text.Stops startsOperator text) :
    operator.Mismatches text := by
  have apart {c : Char} (starts : startsOperator c = true) : text.head? ≠ some c := fun head => by
    simp [stops c head] at starts
  -- Every symbol starts with one of these characters, so the text would start like an operator.
  have noWord {word : Text} (h : word.head?.any startsOperator = true) :
      (Rule.word word).Mismatches text := by
    rw [mismatches_word_iff]
    rintro ⟨tail, rfl⟩
    cases word with
    | nil => cases h
    | cons c word => exact apart (by simpa using h) rfl
  refine mismatches_orElse_iff.mpr ⟨?_, mismatches_orElse_iff.mpr ⟨?_, ?_⟩⟩
  · simp only [anyWord, mismatches_orElse_iff, mismatches_fail, and_true]
    exact ⟨noWord (by decide), noWord (by decide), noWord (by decide), noWord (by decide),
      noWord (by decide), noWord (by decide)⟩
  · exact Mismatches.bind (mismatches_char_iff.mpr (apart (by decide))) _
  · refine Mismatches.bind (mismatches_oneOf_iff.mpr fun c hc mem => ?_) _
    have all : ∀ d ∈ ['*', '%', '+', '-', '<', '>', '?', ':'], startsOperator d = true := by decide
    exact apart (all c mem) hc

/-- A slash that starts a comment is no operator. -/
theorem mismatches_operator_slash {c : Char} (listed : c ∈ ['/', '*']) (rest : Text) :
    operator.Mismatches ('/' :: c :: rest) := by
  have noWord {word : Text} {d : Char} (first : word.head? = some d) (apart : d ≠ '/') :
      (Rule.word word).Mismatches ('/' :: c :: rest) := by
    rw [mismatches_word_iff]
    rintro ⟨tail, same⟩
    obtain ⟨more, rfl⟩ := List.head?_eq_some_iff.mp first
    exact apart (List.cons.inj same).1
  -- No operator of two characters starts with a slash, and a single one must not start a comment.
  refine mismatches_orElse_iff.mpr ⟨?_, mismatches_orElse_iff.mpr ⟨?_, ?_⟩⟩
  · simp only [anyWord, mismatches_orElse_iff, mismatches_fail, and_true]
    exact ⟨noWord rfl (by decide), noWord rfl (by decide), noWord rfl (by decide),
      noWord rfl (by decide), noWord rfl (by decide), noWord rfl (by decide)⟩
  · exact Mismatches.behind (char_cons '/' _) (Mismatches.bind (mismatches_notFollowedBy_iff.mpr
      ⟨c, rest, oneOf_matched_iff.mpr ⟨rfl, listed⟩⟩) _)
  · exact Mismatches.bind (mismatches_oneOf_iff.mpr (by simp)) _

end HclSyntax.Grammar
