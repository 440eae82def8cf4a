import Mathlib.Tactic.SplitIfs
import HclSyntax.Text.Quoted

/-!
# `HclSyntax.Proofs.Text.Closing`: how open delimiters are closed

The steps of `Text.close`, one lemma for each, and all of them as one relation (`Step`), which the
facts about what is closed follow (`close_induction`):

* `close_append_of_close`: what closes some delimiters closes them before any other text, and the
  delimiters around them are still open after it;
* `getLast?_of_close`: what closes a delimiter ends with the character that it waits for;
* `length_le_of_close`: every delimiter takes a character of its own to close.
-/

set_option autoImplicit false

namespace HclSyntax.Text

/-! ### One step -/

section Steps
variable {outer : List Opening} {c d : Char} {tail : Text}

/-- With nothing open, nothing is to be closed. -/
theorem close_nil (text : Text) : close [] text = some ([], text) := by
  rw [close]

/-- A quote closes a quoted string. -/
theorem close_quote_end (rest : Text) :
    close (.quote :: outer) ('"' :: rest)
      = (close outer rest).map fun (span, after) => ('"' :: span, after) := by
  simp only [close.eq_def (.quote :: outer) ('"' :: rest), if_true]

/-- A backslash and a doubled mark take two characters of a string. -/
theorem close_quote_pair (notQuote : c ≠ '"')
    (pair : (c = '\\' || (isTemplateMark c && d = c)) = true) :
    close (.quote :: outer) (c :: d :: tail)
      = (close (.quote :: outer) tail).map fun (span, after) => (c :: d :: span, after) := by
  simp only [close.eq_def (.quote :: outer) (c :: d :: tail), notQuote, pair, if_true, if_false]

/-- A mark and a brace open a template sequence in a string. -/
theorem close_quote_template (notQuote : c ≠ '"')
    (single : ¬ (c = '\\' || (isTemplateMark c && d = c)) = true)
    (opens : (isTemplateMark c && d = '{') = true) :
    close (.quote :: outer) (c :: d :: tail)
      = (close (.template 0 :: .quote :: outer) tail).map
          fun (span, after) => (c :: d :: span, after) := by
  simp only [close.eq_def (.quote :: outer) (c :: d :: tail), notQuote, single, opens, if_true,
    if_false, Bool.false_eq_true]

/-- Any other character of a string stands for itself. -/
theorem close_quote_plain (notQuote : c ≠ '"')
    (single : ¬ (c = '\\' || (isTemplateMark c && d = c)) = true)
    (plain : ¬ (isTemplateMark c && d = '{') = true) :
    close (.quote :: outer) (c :: d :: tail)
      = (close (.quote :: outer) (d :: tail)).map fun (span, after) => (c :: span, after) := by
  simp only [close.eq_def (.quote :: outer) (c :: d :: tail), notQuote, single, plain, if_false,
    Bool.false_eq_true]

end Steps

/-- In a template sequence one character is taken at a time. -/
theorem close_template (braces : Nat) (outer : List Opening) (c : Char) (rest : Text) :
    close (.template braces :: outer) (c :: rest)
      = (close (afterTemplateChar c braces outer) rest).map
          fun (span, after) => (c :: span, after) := by
  simp [close]

/-- What a character opens or closes is the innermost delimiter. -/
theorem afterTemplateChar_append (c : Char) (braces : Nat) (inner outer : List Opening) :
    afterTemplateChar c braces (inner ++ outer) = afterTemplateChar c braces inner ++ outer := by
  unfold afterTemplateChar
  cases braces <;> split_ifs <;> rfl

/-- A character closes one template sequence at most. -/
theorem length_afterTemplateChar (c : Char) (braces : Nat) (outer : List Opening) :
    outer.length ≤ (afterTemplateChar c braces outer).length := by
  unfold afterTemplateChar
  cases braces <;> grind

/-! ### Any step -/

/-- With the first delimiters open, the first text is read next where the second one follows it, and
the second delimiters are open then. -/
inductive Step : List Opening → Text → Text → List Opening → Prop
  | quote {outer : List Opening} {rest : Text} : Step (.quote :: outer) ['"'] rest outer
  | pair {outer : List Opening} {c d : Char} {rest : Text} (notQuote : c ≠ '"')
    (pair : (c = '\\' || (isTemplateMark c && d = c)) = true) :
    Step (.quote :: outer) [c, d] rest (.quote :: outer)
  | sequence {outer : List Opening} {c d : Char} {rest : Text} (notQuote : c ≠ '"')
    (single : ¬ (c = '\\' || (isTemplateMark c && d = c)) = true)
    (opens : (isTemplateMark c && d = '{') = true) :
    Step (.quote :: outer) [c, d] rest (.template 0 :: .quote :: outer)
  | plain {outer : List Opening} {c : Char} {rest : Text} (notQuote : c ≠ '"')
    (apart : ∀ d ∈ rest.head?, ¬ (c = '\\' || (isTemplateMark c && d = c)) = true
      ∧ ¬ (isTemplateMark c && d = '{') = true) :
    Step (.quote :: outer) [c] rest (.quote :: outer)
  | template {outer : List Opening} {braces : Nat} {c : Char} {rest : Text} :
    Step (.template braces :: outer) [c] rest (afterTemplateChar c braces outer)

section Step
variable {opened still : List Opening} {taken rest : Text}

/-- A step takes its characters, and what is then open is closed in the rest. -/
theorem close_of_step (h : Step opened taken rest still) :
    close opened (taken ++ rest)
      = (close still rest).map fun (span, after) => (taken ++ span, after) := by
  cases h with
  | quote => exact close_quote_end rest
  | pair notQuote pair => exact close_quote_pair notQuote pair
  | sequence notQuote single opens => exact close_quote_template notQuote single opens
  | plain notQuote apart =>
    cases rest with
    | nil => simp [close, notQuote]
    | cons d tail =>
      obtain ⟨single, plain⟩ := apart d rfl
      exact close_quote_plain notQuote single plain
  | template => exact close_template ..

/-- Every step takes something. -/
theorem Step.taken_ne_nil (h : Step opened taken rest still) : taken ≠ [] := by
  cases h <;> simp

/-- Where a delimiter is open, something is read next. -/
theorem exists_step (opening : Opening) (outer : List Opening) (c : Char) (text : Text) :
    ∃ taken rest still, Step (opening :: outer) taken rest still ∧ c :: text = taken ++ rest := by
  cases opening with
  | template braces => exact ⟨[c], text, _, .template, rfl⟩
  | quote =>
    by_cases isQuote : c = '"'
    · exact ⟨['"'], text, _, .quote, by rw [isQuote]; rfl⟩
    cases text with
    | nil => exact ⟨[c], [], _, .plain isQuote (by simp), rfl⟩
    | cons d tail =>
      by_cases pair : (c = '\\' || (isTemplateMark c && d = c)) = true
      · exact ⟨[c, d], tail, _, .pair isQuote pair, rfl⟩
      by_cases opens : (isTemplateMark c && d = '{') = true
      · exact ⟨[c, d], tail, _, .sequence isQuote pair opens, rfl⟩
      · refine ⟨[c], d :: tail, _, .plain isQuote fun e head => ?_, rfl⟩
        cases head
        exact ⟨pair, opens⟩

/-- A fact about what closes some delimiters follows step by step, down to where none is open and to
where the text ends. -/
@[elab_as_elim]
theorem close_induction {motive : List Opening → Text → Prop} (closed : ∀ text, motive [] text)
    (ended : ∀ opening outer, motive (opening :: outer) [])
    (step : ∀ {opened taken rest still}, Step opened taken rest still → motive still rest →
      motive opened (taken ++ rest)) (opened : List Opening) (text : Text) : motive opened text := by
  induction length : text.length using Nat.strongRecOn generalizing opened text with
  | _ n ih =>
    match opened, text with
    | [], text => exact closed text
    | opening :: outer, [] => exact ended opening outer
    | opening :: outer, c :: text =>
      obtain ⟨taken, rest, still, next, split⟩ := exists_step opening outer c text
      rw [split]
      -- Every step takes something, so what is left is shorter.
      have some := List.length_pos_iff.mpr next.taken_ne_nil
      refine step next (ih _ ?_ still rest rfl)
      rw [← length, split, List.length_append]
      omega

/-- More delimiters around the open ones make no difference to a step, and neither does what follows
it when everything is closed. -/
theorem Step.around (h : Step opened taken rest still) (outer : List Opening) {other : Text}
    (same : still ≠ [] → other.head? = rest.head?) :
    Step (opened ++ outer) taken other (still ++ outer) := by
  cases h with
  | quote => exact .quote
  | pair notQuote pair => exact .pair notQuote pair
  | sequence notQuote single opens => exact .sequence notQuote single opens
  | plain notQuote apart => exact .plain notQuote (same (by simp) ▸ apart)
  | template => exact afterTemplateChar_append .. ▸ .template

/-- A step closes as many delimiters as it reads characters, or fewer. -/
theorem Step.length_le (h : Step opened taken rest still) :
    opened.length ≤ taken.length + still.length := by
  cases h with
  | @template outer braces c _ =>
    have kept := length_afterTemplateChar c braces outer
    simp only [List.length_cons, List.length_nil]
    omega
  | _ => simp only [List.length_cons, List.length_nil]; omega

end Step

/-- Every open delimiter takes a character of its own to close. -/
theorem length_le_of_close {opened : List Opening} {text span after : Text}
    (h : close opened text = some (span, after)) : opened.length ≤ span.length := by
  induction opened, text using close_induction generalizing span after with
  | closed => simp
  | ended => cases h
  | step step ih =>
    rw [close_of_step step] at h
    obtain ⟨⟨front, back⟩, found, same⟩ := Option.map_eq_some_iff.mp h
    cases same
    have first := step.length_le
    have deeper := ih found
    rw [List.length_append]
    omega

/-! ### More delimiters around -/

/-- What closes some delimiters closes them before any other text, and leaves the outer ones
open. -/
theorem close_append_of_close {opened : List Opening} {text span after : Text}
    (h : close opened text = some (span, after)) (outer : List Opening) (more : Text) :
    close (opened ++ outer) (span ++ more)
      = (close outer more).map fun (inside, tail) => (span ++ inside, tail) := by
  induction opened, text using close_induction generalizing span after with
  | closed text =>
    rw [close_nil] at h
    cases h
    simp
  | ended => cases h
  | @step opened taken rest still step ih =>
    rw [close_of_step step] at h
    obtain ⟨⟨front, back⟩, found, same⟩ := Option.map_eq_some_iff.mp h
    cases same
    -- A step may look at the character behind it, which is one of the span then.
    have head (some : still ≠ []) : (front ++ more).head? = rest.head? := by
      have positive := Nat.lt_of_lt_of_le (List.length_pos_iff.mpr some) (length_le_of_close found)
      obtain ⟨c, inside, rfl⟩ := List.exists_cons_of_ne_nil (List.length_pos_iff.mp positive)
      rw [← close_append found]
      rfl
    rw [List.append_assoc, close_of_step (step.around outer head), ih found, Option.map_map]
    simp [Function.comp_def]

/-- What closes some delimiters closes them before any other text. -/
theorem close_span_append {opened : List Opening} {text span after : Text}
    (h : close opened text = some (span, after)) (more : Text) :
    close opened (span ++ more) = some (span, more) := by
  have again := close_append_of_close h [] more
  simpa [close] using again

/-- Where some delimiters are not closed, more around them are not either. -/
theorem close_append_eq_none {opened : List Opening} {text : Text} (h : close opened text = none)
    (outer : List Opening) : close (opened ++ outer) text = none := by
  induction opened, text using close_induction with
  | closed text =>
    rw [close_nil] at h
    cases h
  | ended => rfl
  | step step ih =>
    rw [close_of_step step] at h
    rw [close_of_step (step.around outer fun _ => rfl), ih (Option.map_eq_none_iff.mp h)]
    rfl

/-! ### The last character -/

/-- The character that closes the outermost of some delimiters. -/
def closing? (opened : List Opening) : Option Char :=
  opened.getLast?.map fun
    | .quote => '"'
    | .template _ => '}'

/-- The outermost delimiter stays the same whatever is open in it. -/
theorem closing?_cons_cons (inner opening : Opening) (outer : List Opening) :
    closing? (inner :: opening :: outer) = closing? (opening :: outer) := by
  rw [closing?, closing?, List.getLast?_cons_cons]

/-- A character of a template sequence closes it, or leaves the outermost delimiter as it is. -/
theorem closing?_afterTemplateChar (c : Char) (braces : Nat) (outer : List Opening) :
    c = '}' ∧ afterTemplateChar c braces outer = outer
      ∨ closing? (afterTemplateChar c braces outer) = closing? (.template braces :: outer) := by
  -- How many braces are open makes no difference to what closes a sequence.
  have same (inner : Nat) :
      closing? (.template inner :: outer) = closing? (.template braces :: outer) := by
    cases outer with
    | nil => rfl
    | cons opening outer => rw [closing?_cons_cons, closing?_cons_cons]
  unfold afterTemplateChar
  split_ifs with isQuote isOpening isClosing
  · exact .inr (closing?_cons_cons _ _ _)
  · exact .inr (same _)
  · cases braces with
    | zero => exact .inl ⟨isClosing, rfl⟩
    | succ inner => exact .inr (same inner)
  · exact .inr rfl

/-- Where a string is around a template sequence, it stays around what a character leaves open. -/
theorem closing?_afterTemplateChar_of_quote {c : Char} {braces : Nat} {outer : List Opening}
    (string : closing? (.template braces :: outer) = some '"') :
    closing? (afterTemplateChar c braces outer) = some '"' := by
  rcases closing?_afterTemplateChar c braces outer with ⟨-, same⟩ | same
  · cases outer with
    | nil => cases string
    | cons opening outer => rwa [same, ← closing?_cons_cons (.template braces)]
  · rwa [same]

/-- A step closes the outermost delimiter with the character that it waits for, or leaves one open that
waits for the same. -/
theorem Step.outermost {opened still : List Opening} {taken rest : Text} {last : Char}
    (h : Step opened taken rest still) (waits : closing? opened = some last) :
    taken = [last] ∧ still = [] ∨ closing? still = some last := by
  cases h with
  | quote =>
    cases still with
    | nil =>
      cases waits
      exact .inl ⟨rfl, rfl⟩
    | cons opening outer => exact .inr ((closing?_cons_cons ..).symm.trans waits)
  | pair | plain => exact .inr waits
  | sequence => exact .inr ((closing?_cons_cons ..).trans waits)
  | @template outer braces c _ =>
    -- The sequence may end here, and if nothing is open around it that is the end.
    rcases closing?_afterTemplateChar c braces outer with ⟨rfl, left⟩ | kept
    · cases outer with
      | nil =>
        cases waits
        exact .inl ⟨rfl, left⟩
      | cons opening outer =>
        rw [left]
        exact .inr ((closing?_cons_cons ..).symm.trans waits)
    · exact .inr (kept.trans waits)

/-- What closes some delimiters ends with the character that closes the outermost of them. -/
theorem getLast?_of_close {opened : List Opening} {text span after : Text} {last : Char}
    (h : close opened text = some (span, after)) (outermost : closing? opened = some last) :
    span.getLast? = some last := by
  induction opened, text using close_induction generalizing span after with
  | closed => cases outermost
  | ended => cases h
  | step step ih =>
    rw [close_of_step step] at h
    obtain ⟨⟨front, back⟩, found, same⟩ := Option.map_eq_some_iff.mp h
    cases same
    rcases step.outermost outermost with ⟨rfl, rfl⟩ | kept
    · rw [close_nil] at found
      cases found
      rfl
    · rw [List.getLast?_append, ih found kept]
      rfl

end HclSyntax.Text
