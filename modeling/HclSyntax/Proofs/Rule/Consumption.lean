import HclSyntax.Proofs.Rule.Progress

/-!
# `HclSyntax.Proofs.Rule.Consumption`: rules that take something

A repetition ends where its element mismatches. It would also end, without a result, where the
element matches and takes nothing (`Rule.MeetsIdle`), and this is the only way for it to mismatch
(`mismatches_many_iff`). That it never happens is a matter of two properties, which are found by
instance search like those of `HclSyntax.Proofs.Rule.Progress`:

* `Rule.Consumes`: every match takes at least one character;
* `Rule.Decided`: the rule never mismatches.

A repetition of a rule that consumes is decided. A sequence consumes when one of its parts does and
the others only take from the front. `Rule.Advances` puts together what is known of the places where
such a rule matches and gives up.
-/

set_option autoImplicit false

namespace HclSyntax.Rule

variable {α β : Type}

/-! ### Rules that consume -/

/-- Every match of the rule takes at least one character. -/
class Consumes (rule : Rule α) : Prop where
  shortens : ∀ {text rest : Text} {value : α},
    rule text = .matched value rest → rest.length < text.length

/-- The first rule of a sequence consumes. -/
instance Consumes.bindFirst {first : Rule α} {next : α → Rule β} [hfirst : Consumes first]
    [∀ value, Descends (next value)] : Consumes (first >>= next) where
  shortens h := by
    obtain ⟨value, behind, found, more⟩ := bind_matched_iff.mp h
    have shorter := hfirst.shortens found
    have further := (Descends.of_matched more).length_le
    omega

/-- A later rule of a sequence consumes. -/
instance Consumes.bindNext {first : Rule α} {next : α → Rule β} [Descends first]
    [hnext : ∀ value, Consumes (next value)] : Consumes (first >>= next) where
  shortens h := by
    obtain ⟨value, behind, found, more⟩ := bind_matched_iff.mp h
    have start := (Descends.of_matched found).length_le
    have shorter := (hnext value).shortens more
    omega

instance {first second : Rule α} [hfirst : Consumes first] [hsecond : Consumes second] :
    Consumes (first <|> second) where
  shortens h := by
    rcases orElse_matched_iff.mp h with found | ⟨-, found⟩
    · exact hfirst.shortens found
    · exact hsecond.shortens found

instance : Consumes (fail : Rule α) :=
  ⟨fun h => (fail_matched_iff.mp h).elim⟩

instance (accepts : Char → Bool) : Consumes (charWhere accepts) where
  shortens h := by
    obtain ⟨rfl, -⟩ := charWhere_matched_iff.mp h
    simp

instance (c : Char) : Consumes (char c) :=
  inferInstanceAs (Consumes (charWhere _))

instance (choices : Text) : Consumes (oneOf choices) :=
  inferInstanceAs (Consumes (charWhere _))

/-- A word that is not empty takes something. -/
theorem consumes_word {expected : Text} (nonempty : expected ≠ []) : Consumes (word expected) where
  shortens h := by
    obtain ⟨rfl, -⟩ := word_matched_iff.mp h
    have := List.length_pos_iff.mpr nonempty
    rw [List.length_append]
    omega

/-- So does a keyword. -/
theorem consumes_keyword {expected : Text} (nonempty : expected ≠ []) :
    Consumes (keyword expected) := by
  have := consumes_word nonempty
  unfold keyword
  infer_instance

instance (accepts : Char → Bool) : Consumes (takeWhile1 accepts) where
  shortens h := by
    obtain ⟨rfl, nonempty, -⟩ := takeWhile1_matched_iff.mp h
    have := List.length_pos_iff.mpr nonempty
    rw [List.length_append]
    omega

instance {rule : Rule α} [Consumes rule] [Descends rule] : Consumes (many1 rule) :=
  inferInstanceAs (Consumes (rule >>= fun _ => _))

/-- A match of the rule leaves a proper end of the text, and a failure of either kind an end of it. -/
structure Advances (rule : Rule α) : Prop where
  matched : ∀ {text rest : Text} {value : α},
    rule text = .matched value rest → rest <:+ text ∧ rest ≠ text
  mismatch : ∀ {text rest : Text}, rule text = .mismatch rest → rest <:+ text
  committed : ∀ {text rest : Text} {fault : Fault},
    rule text = .committed rest fault → rest <:+ text

/-- A rule that consumes advances, and stays in the text where it fails. -/
theorem advances (rule : Rule α) [Descends rule] [consumes : Consumes rule] : rule.Advances where
  matched {text rest value} h := by
    refine ⟨Descends.of_matched h, ?_⟩
    rintro rfl
    exact absurd (consumes.shortens h) (Nat.lt_irrefl _)
  mismatch {text rest} h := by simpa [h, Reply.rest] using rest_suffix rule text
  committed {text rest fault} h := by simpa [h, Reply.rest] using rest_suffix rule text

/-! ### Repetitions -/

/-- A place that a repetition of the rule gets to: where it starts, or further on behind an
element. -/
inductive Reaches (rule : Rule α) : Text → Text → Prop
  | start (text : Text) : Reaches rule text text
  | behind {text rest place : Text} {value : α} (found : rule text = .matched value rest)
    (more : Reaches rule rest place) : Reaches rule text place

/-- A repetition of the rule gets to a place where an element matches and takes nothing. -/
def MeetsIdle (rule : Rule α) (text : Text) : Prop :=
  ∃ place value, rule.Reaches text place ∧ rule place = .matched value place

/-- A repetition mismatches exactly where it meets an element that takes nothing. -/
theorem mismatches_many_iff {rule : Rule α} [Descends rule] {text : Text} :
    (many rule).Mismatches text ↔ rule.MeetsIdle text := by
  constructor
  · rintro ⟨stop, gaveUp⟩
    fun_induction many rule text with
    | case1 | case2 | case3 | case5 => cases gaveUp
    | case4 text value rest found shorter after more ih =>
      cases gaveUp
      obtain ⟨place, other, reaches, idle⟩ := ih more
      exact ⟨place, other, .behind found reaches, idle⟩
    | case6 text value rest found nothing =>
      -- The element leaves an end of the text that is not shorter than it.
      have inside : rest <:+ text := Descends.of_matched found
      have same : rest = text := inside.eq_of_length_le (Nat.le_of_not_lt nothing)
      subst same
      exact ⟨rest, value, .start rest, found⟩
  · rintro ⟨place, value, reaches, idle⟩
    induction reaches with
    | start text =>
      refine ⟨text, ?_⟩
      rw [many, idle]
      exact if_neg (Nat.lt_irrefl _)
    | @behind text rest place first found more ih =>
      obtain ⟨stop, gaveUp⟩ := ih idle
      rw [Mismatches, many, found]
      dsimp only
      split
      · exact ⟨stop, by rw [gaveUp]⟩
      · exact ⟨rest, rfl⟩

/-- A repetition of a rule that consumes meets no element that takes nothing. -/
theorem not_meetsIdle (rule : Rule α) [consumes : Consumes rule] (text : Text) :
    ¬ rule.MeetsIdle text := by
  rintro ⟨place, value, -, idle⟩
  exact Nat.lt_irrefl _ (consumes.shortens idle)

/-! ### Rules that never mismatch -/

/-- The rule matches or commits on every text. -/
class Decided (rule : Rule α) : Prop where
  not_mismatches : ∀ text, ¬ rule.Mismatches text

/-- A decided rule does not give up. -/
theorem not_mismatches (rule : Rule α) [Decided rule] (text : Text) : ¬ rule.Mismatches text :=
  Decided.not_mismatches text

/-- A repetition of a rule that consumes ends with a match or a fault. -/
instance {rule : Rule α} [Descends rule] [Consumes rule] : Decided (many rule) where
  not_mismatches text h := not_meetsIdle rule text (mismatches_many_iff.mp h)

end HclSyntax.Rule
