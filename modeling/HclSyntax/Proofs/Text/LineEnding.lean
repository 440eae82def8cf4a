import HclSyntax.Text.LineEnding

/-!
# `HclSyntax.Proofs.Text.LineEnding`: line endings in one pass

`Text.normalizeLineEndings` goes over a text twice, once for the pairs and once for the carriage
returns that are left. `Text.UnifiesEndings` is the reading in a single pass, from the first
character to the last. The second pass only finds what the first has left, so the two have to agree
on runs of carriage returns and line feeds of any length.

* `normalizeLineEndings_pair` and `normalizeLineEndings_cons`: the two passes, step by step;
* `normalizeLineEndings_append`: where a text may be cut, and its parts be normalized one by one;
* `normalizeLineEndings_onePass`: the agreement with the single pass, and what follows from it.
-/

set_option autoImplicit false

namespace HclSyntax.Text

/-- One pass over a text: a carriage return and the line feed behind it are one line feed, any other
carriage return and any other line feed are one too, and every other character is kept. -/
inductive UnifiesEndings : Text → Text → Prop
  | done : UnifiesEndings [] []
  | pair {rest result : Text} (more : UnifiesEndings rest result) :
    UnifiesEndings ('\r' :: '\n' :: rest) ('\n' :: result)
  | carriageReturn {rest result : Text} (single : rest.head? ≠ some '\n')
    (more : UnifiesEndings rest result) : UnifiesEndings ('\r' :: rest) ('\n' :: result)
  | lineFeed {rest result : Text} (more : UnifiesEndings rest result) :
    UnifiesEndings ('\n' :: rest) ('\n' :: result)
  | other {c : Char} {rest result : Text} (notReturn : c ≠ '\r') (notFeed : c ≠ '\n')
    (more : UnifiesEndings rest result) : UnifiesEndings (c :: rest) (c :: result)

/-! ### One step of the two passes -/

/-- A place between two characters that are one line ending. -/
def CutsPair (front back : Text) : Prop :=
  front.getLast? = some '\r' ∧ back.head? = some '\n'

/-- The first pass takes a pair at once. -/
theorem normalizeLineEndings_pair (rest : Text) :
    normalizeLineEndings ('\r' :: '\n' :: rest) = '\n' :: normalizeLineEndings rest := by
  simp [normalizeLineEndings, joinCarriagePairs, replaceCarriageReturns]

/-- A character that starts no pair is left to the second pass. -/
theorem normalizeLineEndings_cons {c : Char} {rest : Text} (h : ¬ CutsPair [c] rest) :
    normalizeLineEndings (c :: rest)
      = (if c = '\r' then '\n' else c) :: normalizeLineEndings rest := by
  cases rest with
  | nil => rfl
  | cons d rest =>
    have single : ¬ (c = '\r' ∧ d = '\n') := by simpa [CutsPair] using h
    rw [normalizeLineEndings, joinCarriagePairs, if_neg single]
    rfl

/-- A text without carriage returns stays as it is. -/
theorem normalizeLineEndings_of_notMem {text : Text} (h : '\r' ∉ text) :
    normalizeLineEndings text = text := by
  induction text with
  | nil => rfl
  | cons c rest ih =>
    have notReturn : c ≠ '\r' := fun same => h (same ▸ List.mem_cons_self)
    have single : ¬ CutsPair [c] rest := fun ⟨last, _⟩ => notReturn (Option.some.inj last)
    rw [normalizeLineEndings_cons single, if_neg notReturn,
      ih fun inside => h (List.mem_cons_of_mem c inside)]

/-- No carriage return is left. -/
theorem notMem_normalizeLineEndings (text : Text) : '\r' ∉ normalizeLineEndings text := by
  intro left
  obtain ⟨c, -, same⟩ := List.mem_map.mp left
  split at same
  · cases same
  · next notReturn => exact notReturn same

/-! ### Where a text may be cut -/

/-- What stands further in front makes no difference. -/
theorem CutsPair.cons {front back : Text} (h : CutsPair front back) (c : Char) :
    CutsPair (c :: front) back := by
  refine ⟨?_, h.2⟩
  rw [List.getLast?_cons, h.1]
  rfl

/-- A text that is cut outside pairs is normalized part by part. -/
theorem normalizeLineEndings_append_of_not_cutsPair {front back : Text}
    (h : ¬ CutsPair front back) :
    normalizeLineEndings (front ++ back)
      = normalizeLineEndings front ++ normalizeLineEndings back := by
  -- Along the first pass, so that a pair of the front is taken at once.
  induction front using joinCarriagePairs.induct with
  | case1 => rfl
  | case2 c => exact normalizeLineEndings_cons h
  | case3 c d rest pair ih =>
    obtain ⟨rfl, rfl⟩ := pair
    rw [List.cons_append, List.cons_append, normalizeLineEndings_pair, normalizeLineEndings_pair,
      ih fun cuts => h ((cuts.cons _).cons _), List.cons_append]
  | case4 c d rest single ih =>
    have here : ¬ CutsPair [c] (d :: rest) := by simpa [CutsPair] using single
    have there : ¬ CutsPair [c] (d :: rest ++ back) := by simpa [CutsPair] using single
    rw [List.cons_append, normalizeLineEndings_cons there, normalizeLineEndings_cons here,
      ih fun cuts => h (cuts.cons c), List.cons_append]

/-- A pair that is cut in two gives a line feed more. -/
theorem length_normalizeLineEndings_append_of_cutsPair {front back : Text}
    (h : CutsPair front back) :
    (normalizeLineEndings front ++ normalizeLineEndings back).length
      = (normalizeLineEndings (front ++ back)).length + 1 := by
  obtain ⟨front, rfl⟩ := List.getLast?_eq_some_iff.mp h.1
  obtain ⟨back, rfl⟩ := List.head?_eq_some_iff.mp h.2
  -- Both texts may be cut in front of the carriage return.
  have before (more : Text) : ¬ CutsPair front ('\r' :: more) := by simp [CutsPair]
  have single : ¬ CutsPair ['\n'] back := by simp [CutsPair]
  rw [List.append_assoc, List.singleton_append,
    normalizeLineEndings_append_of_not_cutsPair (before _),
    normalizeLineEndings_append_of_not_cutsPair (before _), normalizeLineEndings_pair,
    normalizeLineEndings_cons single]
  have alone : normalizeLineEndings ['\r'] = ['\n'] := rfl
  simp only [alone, List.length_append, List.length_cons, List.length_nil]
  omega

/-- A text is normalized part by part exactly if it is cut outside pairs. -/
theorem normalizeLineEndings_append {front back : Text} :
    normalizeLineEndings (front ++ back) = normalizeLineEndings front ++ normalizeLineEndings back
      ↔ ¬ CutsPair front back := by
  refine ⟨fun same cuts => ?_, normalizeLineEndings_append_of_not_cutsPair⟩
  have more := length_normalizeLineEndings_append_of_cutsPair cuts
  rw [← same] at more
  omega

/-! ### The single pass -/

/-- The single pass over a character that starts no pair. -/
theorem UnifiesEndings.cons {c : Char} {rest result : Text} (h : ¬ CutsPair [c] rest)
    (more : UnifiesEndings rest result) :
    UnifiesEndings (c :: rest) ((if c = '\r' then '\n' else c) :: result) := by
  split
  · next isReturn =>
    subst isReturn
    exact .carriageReturn (fun feed => h ⟨rfl, feed⟩) more
  · next notReturn =>
    by_cases isFeed : c = '\n'
    · subst isFeed
      exact .lineFeed more
    · exact .other notReturn isFeed more

/-- The two passes read what the single pass reads. -/
theorem unifiesEndings_normalizeLineEndings (text : Text) :
    UnifiesEndings text (normalizeLineEndings text) := by
  induction text using joinCarriagePairs.induct with
  | case1 => exact .done
  | case2 c => exact .cons (by simp [CutsPair]) .done
  | case3 c d rest pair ih =>
    obtain ⟨rfl, rfl⟩ := pair
    rw [normalizeLineEndings_pair]
    exact .pair ih
  | case4 c d rest single ih =>
    have here : ¬ CutsPair [c] (d :: rest) := by simpa [CutsPair] using single
    rw [normalizeLineEndings_cons here]
    exact .cons here ih

/-- A text can be read in a single pass in one way only. -/
theorem UnifiesEndings.eq {text result : Text} (h : UnifiesEndings text result) :
    normalizeLineEndings text = result := by
  induction h with
  | done => rfl
  | pair _ ih => rw [normalizeLineEndings_pair, ih]
  | carriageReturn single _ ih =>
    rw [normalizeLineEndings_cons fun cuts => single cuts.2, if_pos rfl, ih]
  | lineFeed _ ih =>
    rw [normalizeLineEndings_cons (by simp [CutsPair]), if_neg (by decide), ih]
  | other notReturn _ _ ih =>
    rw [normalizeLineEndings_cons fun cuts => notReturn (Option.some.inj cuts.1),
      if_neg notReturn, ih]

/-- Normalizing line endings is the reading of a text in a single pass. So no carriage return is left,
normalizing again changes nothing, and a text may be normalized part by part exactly if it is not cut
between a carriage return and the line feed behind it. -/
theorem normalizeLineEndings_onePass :
    (∀ text result, normalizeLineEndings text = result ↔ UnifiesEndings text result)
      ∧ (∀ text, '\r' ∉ normalizeLineEndings text)
      ∧ (∀ text, normalizeLineEndings (normalizeLineEndings text) = normalizeLineEndings text)
      ∧ ∀ front back, normalizeLineEndings (front ++ back)
          = normalizeLineEndings front ++ normalizeLineEndings back
        ↔ ¬ (front.getLast? = some '\r' ∧ back.head? = some '\n') := by
  refine ⟨fun text result => ⟨?_, UnifiesEndings.eq⟩, notMem_normalizeLineEndings, fun text => ?_,
    fun front back => normalizeLineEndings_append⟩
  · rintro rfl
    exact unifiesEndings_normalizeLineEndings text
  · exact normalizeLineEndings_of_notMem (notMem_normalizeLineEndings text)

end HclSyntax.Text
