import HclSyntax.Proofs.Rule.Progress

/-!
# `HclSyntax.Proofs.Rule.Ending`: what rules take does not end with white space

A rule may look past white space and take none of it. Two properties say so for every match; they are
found by instance search like those of `HclSyntax.Proofs.Rule.Progress`:

* `Rule.Tight`: the rule takes something, and the last character of it is no white space;
* `Rule.Tidy`: the rule takes nothing, or does the same.

A sequence is tight when its last part is, or when an earlier part is and the others behind it are
tidy.
-/

set_option autoImplicit false

namespace HclSyntax.Rule

variable {α β : Type}

/-- The rest of the text stands behind a character of it that is no white space. -/
def EndsBehind (text rest : Text) : Prop :=
  ∃ front c, text = front ++ c :: rest ∧ isWhitespace c = false

/-- More text in front makes no difference. -/
theorem EndsBehind.of_suffix {text behind rest : Text} (h : EndsBehind behind rest)
    (inside : behind <:+ text) : EndsBehind text rest := by
  obtain ⟨before, rfl⟩ := inside
  obtain ⟨front, c, rfl, notSpace⟩ := h
  exact ⟨before ++ front, c, (List.append_assoc ..).symm, notSpace⟩

/-- What is taken behind such a character is nothing, or ends with one as well. -/
theorem EndsBehind.trans {text behind rest : Text} (start : EndsBehind text behind)
    (more : behind = rest ∨ EndsBehind behind rest) : EndsBehind text rest := by
  rcases more with rfl | ends
  · exact start
  · obtain ⟨front, c, rfl, -⟩ := start
    exact ends.of_suffix ⟨front ++ [c], by simp⟩

/-- A text with no white space in it that is not empty. -/
theorem endsBehind_append {text : Text} (nonempty : text ≠ [])
    (all : ∀ c ∈ text, isWhitespace c = false) (rest : Text) : EndsBehind (text ++ rest) rest := by
  refine ⟨text.dropLast, text.getLast nonempty, ?_, all _ (List.getLast_mem nonempty)⟩
  rw [List.append_cons, List.dropLast_append_getLast nonempty]

/-- Every match takes something that does not end with white space. -/
class Tight (rule : Rule α) : Prop where
  ends : ∀ {text rest : Text} {value : α},
    rule text = .matched value rest → EndsBehind text rest

/-- Every match takes nothing, or something that does not end with white space. -/
class Tidy (rule : Rule α) : Prop where
  ends : ∀ {text rest : Text} {value : α},
    rule text = .matched value rest → text = rest ∨ EndsBehind text rest

instance (priority := low) {rule : Rule α} [tight : Tight rule] : Tidy rule :=
  ⟨fun h => .inr (tight.ends h)⟩

/-! ### Sequence and choice -/

instance (value : α) : Tidy (pure value : Rule α) :=
  ⟨fun h => .inl (pure_matched_iff.mp h).2⟩

instance Tidy.bind {first : Rule α} {next : α → Rule β} [hfirst : Tidy first]
    [hnext : ∀ value, Tidy (next value)] : Tidy (first >>= next) where
  ends h := by
    obtain ⟨value, behind, found, more⟩ := bind_matched_iff.mp h
    rcases hfirst.ends found with rfl | start
    · exact (hnext value).ends more
    · exact .inr (start.trans ((hnext value).ends more))

/-- The last rule of a sequence is tight. -/
instance Tight.bindNext {first : Rule α} {next : α → Rule β} [Descends first]
    [hnext : ∀ value, Tight (next value)] : Tight (first >>= next) where
  ends h := by
    obtain ⟨value, behind, found, more⟩ := bind_matched_iff.mp h
    exact ((hnext value).ends more).of_suffix (Descends.of_matched found)

/-- An earlier rule of a sequence is tight. -/
instance Tight.bindFirst {first : Rule α} {next : α → Rule β} [hfirst : Tight first]
    [hnext : ∀ value, Tidy (next value)] : Tight (first >>= next) where
  ends h := by
    obtain ⟨value, behind, found, more⟩ := bind_matched_iff.mp h
    exact (hfirst.ends found).trans ((hnext value).ends more)

instance {first second : Rule α} [hfirst : Tight first] [hsecond : Tight second] :
    Tight (first <|> second) where
  ends h := by
    rcases orElse_matched_iff.mp h with found | ⟨-, found⟩
    · exact hfirst.ends found
    · exact hsecond.ends found

/-! ### Characters -/

/-- A character of a class without white space ends with itself. -/
theorem tight_charWhere {accepts : Char → Bool}
    (apart : ∀ c, accepts c = true → isWhitespace c = false) : Tight (charWhere accepts) where
  ends h := by
    obtain ⟨rfl, accepted⟩ := charWhere_matched_iff.mp h
    exact ⟨[], _, rfl, apart _ accepted⟩

/-- So does a character that is no white space. -/
theorem tight_char {c : Char} (notSpace : isWhitespace c = false) : Tight (char c) := by
  refine tight_charWhere fun d same => ?_
  obtain rfl : d = c := by simpa using same
  exact notSpace

/-- A run of such characters ends with the last of them. -/
theorem tight_takeWhile1 {accepts : Char → Bool}
    (apart : ∀ c, accepts c = true → isWhitespace c = false) : Tight (takeWhile1 accepts) where
  ends h := by
    obtain ⟨rfl, nonempty, all, -⟩ := takeWhile1_matched_iff.mp h
    exact endsBehind_append nonempty (fun c hc => apart c (all c hc)) _

/-- A run of them that may be empty does so or takes nothing. -/
theorem tidy_takeWhile {accepts : Char → Bool}
    (apart : ∀ c, accepts c = true → isWhitespace c = false) : Tidy (takeWhile accepts) where
  ends {_ _ run} h := by
    obtain ⟨rfl, all, -⟩ := takeWhile_matched_iff.mp h
    by_cases nothing : run = []
    · exact .inl (by rw [nothing, List.nil_append])
    · exact .inr (endsBehind_append nothing (fun c hc => apart c (all c hc)) _)

/-! ### Repetition -/

instance {rule : Rule α} [tidy : Tidy rule] : Tidy (many rule) where
  ends {text rest values} h := by
    induction h using many_induction with
    | ends => exact .inl rfl
    | element found _ _ ih =>
      rcases tidy.ends found with rfl | start
      · exact ih
      · exact .inr (start.trans ih)

instance {rule : Rule α} [Tight rule] : Tight (many1 rule) :=
  inferInstanceAs (Tight (rule >>= fun _ => _))

end HclSyntax.Rule
