import HclSyntax.Proofs.Rule.Progress

/-!
# `HclSyntax.Proofs.Rule.Fault`: where faults come from

A committed failure passes through every combinator unchanged, and only `Rule.body` makes one of its
own. The lemmas `*_committed_iff` say for each combinator which of its rules a fault comes from.

`Rule.Explains` is what follows for a whole rule: whatever holds of every fault where it arises, and
does not depend on how much of the text stands before, holds of every fault the rule gives. It is
found by instance search, combinator by combinator. Rules that never commit have nothing to explain.
-/

set_option autoImplicit false

namespace HclSyntax.Rule

variable {α β : Type} {text rest : Text} {fault : Fault}

/-! ### Where rules give up -/

/-- A sequence gives up where the first of its rules does that mismatches. -/
theorem bind_mismatch_iff {first : Rule α} {next : α → Rule β} :
    (first >>= next) text = .mismatch rest
      ↔ first text = .mismatch rest
        ∨ ∃ value behind, first text = .matched value behind ∧ next value behind = .mismatch rest := by
  rw [bind_apply]
  cases first text <;> simp [and_assoc]

/-- A character gives up where it does not stand. -/
theorem char_mismatch_iff {c : Char} :
    char c text = .mismatch rest ↔ text.head? ≠ some c ∧ text = rest := by
  unfold char charWhere
  cases text with
  | nil => simp
  | cons d tail => by_cases h : d = c <;> simp [h]

/-! ### Where faults come from -/

/-- A rule that never commits gives no fault. -/
theorem not_committed {rule : Rule α} [Tentative rule] (h : rule text = .committed rest fault) :
    False := by
  rcases answers rule text with ⟨place, mismatch⟩ | ⟨value, behind, found⟩
  · simp [h] at mismatch
  · simp [h] at found

/-- A sequence of rules commits where one of them does. -/
theorem bind_committed_iff {first : Rule α} {next : α → Rule β} :
    (first >>= next) text = .committed rest fault
      ↔ first text = .committed rest fault
        ∨ ∃ value behind, first text = .matched value behind
            ∧ next value behind = .committed rest fault := by
  rw [bind_apply]
  cases first text <;> simp [and_assoc]

/-- Of two alternatives the second commits where the first gave up. -/
theorem orElse_committed_iff {first second : Rule α} :
    (first <|> second) text = .committed rest fault
      ↔ first text = .committed rest fault
        ∨ first.Mismatches text ∧ second text = .committed rest fault := by
  unfold Mismatches
  rw [orElse_apply]
  cases first text <;> simp

/-- An optional rule commits where its rule does. -/
theorem optional_committed_iff {rule : Rule α} :
    optional rule text = .committed rest fault ↔ rule text = .committed rest fault := by
  unfold optional
  cases rule text <;> simp

/-- A body makes its mismatches faults, and adds itself to the open bodies of those inside it. -/
theorem body_committed_iff {rule : Rule α} :
    body rule text = .committed rest fault
      ↔ (rule text = .mismatch rest ∧ fault = .unclosedBody 1)
        ∨ (∃ bodies, rule text = .committed rest (.unclosedBody bodies)
            ∧ fault = .unclosedBody (bodies + 1))
        ∨ ∃ construct, rule text = .committed rest (.unterminated construct)
            ∧ fault = .unterminated construct := by
  unfold body
  -- A construct without an end goes through unchanged; only bodies are counted.
  cases rule text with
  | matched value behind => simp
  | mismatch behind =>
    simp only [Reply.committed.injEq, Reply.mismatch.injEq, reduceCtorEq, false_and, exists_false,
      or_false]
    exact and_congr_right fun _ => eq_comm
  | committed behind cause =>
    cases cause <;> cases fault <;> simp [eq_comm]

/-- A repetition gives the fault of one of its elements, behind others that matched. -/
theorem many_committed {rule : Rule α} [Descends rule] (h : many rule text = .committed rest fault) :
    ∃ behind, behind <:+ text ∧ rule behind = .committed rest fault := by
  fun_induction many rule text with
  | case1 | case3 | case4 | case6 => cases h
  | case2 text place cause found =>
    cases h
    exact ⟨text, List.suffix_refl text, found⟩
  | case5 text value tail found shorter after cause more ih =>
    cases h
    obtain ⟨behind, inside, faulty⟩ := ih more
    exact ⟨behind, inside.trans (Descends.of_matched found), faulty⟩

/-! ### Faults that are explained -/

/-- What is known of a fault from the text before its place and the text from there on. More text
in front makes no difference. -/
class Cause (explains : Text → Text → Fault → Prop) : Prop where
  append : ∀ {before rest : Text} {fault : Fault} (front : Text),
    explains before rest fault → explains (front ++ before) rest fault

/-- Every fault of the rule is explained. -/
class Explains (explains : Text → Text → Fault → Prop) (rule : Rule α) : Prop where
  cause : ∀ {text rest : Text} {fault : Fault}, rule text = .committed rest fault →
    ∃ before, text = before ++ rest ∧ explains before rest fault

section Explains

variable {explains : Text → Text → Fault → Prop}

/-- A fault that is explained at an end of the text is explained in the text. -/
theorem Cause.of_suffix [Cause explains] {behind : Text} (h : behind <:+ text)
    (found : ∃ before, behind = before ++ rest ∧ explains before rest fault) :
    ∃ before, text = before ++ rest ∧ explains before rest fault := by
  obtain ⟨front, rfl⟩ := h
  obtain ⟨before, rfl, known⟩ := found
  exact ⟨front ++ before, (List.append_assoc ..).symm, Cause.append front known⟩

instance (priority := low) {rule : Rule α} [Tentative rule] : Explains explains rule :=
  ⟨fun h => (not_committed h).elim⟩

instance Explains.bind [Cause explains] {first : Rule α} {next : α → Rule β} [Descends first]
    [hfirst : Explains explains first] [hnext : ∀ value, Explains explains (next value)] :
    Explains explains (first >>= next) where
  cause h := by
    rcases bind_committed_iff.mp h with found | ⟨value, behind, found, more⟩
    · exact hfirst.cause found
    · exact Cause.of_suffix (Descends.of_matched found) ((hnext value).cause more)

instance Explains.orElse {first second : Rule α} [hfirst : Explains explains first]
    [hsecond : Explains explains second] : Explains explains (first <|> second) where
  cause h := by
    rcases orElse_committed_iff.mp h with found | ⟨-, found⟩
    · exact hfirst.cause found
    · exact hsecond.cause found

instance {condition : Prop} [Decidable condition] {yes no : Rule α} [Explains explains yes]
    [Explains explains no] : Explains explains (if condition then yes else no) := by
  split <;> infer_instance

instance {rule : Rule α} [h : Explains explains rule] : Explains explains (optional rule) where
  cause found := h.cause (optional_committed_iff.mp found)

instance [Cause explains] {rule : Rule α} [Descends rule] [h : Explains explains rule] :
    Explains explains (many rule) where
  cause found := by
    obtain ⟨behind, inside, faulty⟩ := many_committed found
    exact Cause.of_suffix inside (h.cause faulty)

end Explains

end HclSyntax.Rule
