import HclSyntax.Proofs.LineBreak.Steady
import HclSyntax.Proofs.Rule.Fault

/-!
# `HclSyntax.Proofs.LineBreak.Fence`: a name in front of a closing parenthesis

A name in parentheses is also a group with one argument, and what stands in front of a closing
parenthesis may be read as a name or as the arguments of a call. Read as arguments it has no fault:
no rule that can start on characters of names commits, and none of them gets past the parenthesis
(`Rule.Confined`). The others do not start there (`Rule.Barred`).
-/

set_option autoImplicit false

set_option synthInstance.maxSize 100000

namespace HclSyntax

open Grammar

/-- Characters of names stand in front of a closing parenthesis. -/
inductive Text.Fenced : Text → Prop
  | fence (behind : Text) : Text.Fenced (')' :: behind)
  | cons {c : Char} {rest : Text} (h : isNameChar c = true) (more : Text.Fenced rest) :
    Text.Fenced (c :: rest)

namespace Rule

variable {α β : Type} {text : Text}

/-- In front of a closing parenthesis the rule does not commit and stays in front of it. -/
class Confined (rule : Rule α) : Prop where
  answers {text : Text} (h : text.Fenced) :
    rule.Mismatches text ∨ ∃ value rest, rule text = .matched value rest ∧ rest.Fenced

/-- What a confined rule does in front of a closing parenthesis. -/
theorem confined (rule : Rule α) [h : Confined rule] {text : Text} (fenced : text.Fenced) :
    rule.Mismatches text ∨ ∃ value rest, rule text = .matched value rest ∧ rest.Fenced :=
  h.answers fenced

/-- The rule does not start on a name in front of a closing parenthesis. -/
class Barred (rule : Rule α) : Prop where
  mismatches {text : Text} (h : text.Fenced) : rule.Mismatches text

instance (priority := low) {rule : Rule α} [h : Barred rule] : Confined rule :=
  ⟨fun fenced => .inl (h.mismatches fenced)⟩

/-! ### Rules that do not start -/

instance Barred.bindFirst {first : Rule α} {next : α → Rule β} [h : Barred first] :
    Barred (first >>= next) :=
  ⟨fun fenced => (h.mismatches fenced).bind _⟩

instance Barred.bindNext {first : Rule α} {next : α → Rule β} [hfirst : Confined first]
    [hnext : ∀ value, Barred (next value)] : Barred (first >>= next) where
  mismatches fenced := by
    rcases hfirst.answers fenced with mismatch | ⟨value, rest, found, inside⟩
    · exact mismatch.bind _
    · exact ((hnext value).mismatches inside).behind found

instance {first second : Rule α} [hfirst : Barred first] [hsecond : Barred second] :
    Barred (first <|> second) :=
  ⟨fun fenced => mismatches_orElse_iff.mpr ⟨hfirst.mismatches fenced, hsecond.mismatches fenced⟩⟩

instance : Barred (fail : Rule α) :=
  ⟨fun _ => mismatches_fail _⟩

instance {rule : Rule α} [h : Barred rule] (accepts : α → Bool) : Barred (rule.suchThat accepts) :=
  ⟨fun fenced => (h.mismatches fenced).suchThat accepts⟩

/-- A word that starts with no character of names, nor with the parenthesis, does not start there.
-/
theorem barred_word {c : Char} {expected : Text} (apart : isNameChar c = false) (notFence : c ≠ ')') :
    Barred (word (c :: expected)) where
  mismatches fenced := by
    rw [mismatches_word_iff, List.cons_prefix_iff]
    rintro ⟨rest, same, -⟩
    cases fenced with
    | fence => exact notFence (List.cons.inj same).1.symm
    | cons h => simp [← (List.cons.inj same).1, h] at apart

/-- The same for one character. -/
theorem barred_char {c : Char} (apart : isNameChar c = false) (notFence : c ≠ ')') :
    Barred (char c) where
  mismatches fenced := by
    rw [mismatches_char_iff]
    cases fenced with
    | fence => simpa using notFence.symm
    | cons h => exact Text.head?_cons_ne h apart _

/-! ### Rules that stay in front -/

instance (value : α) : Confined (pure value : Rule α) :=
  ⟨fun fenced => .inr ⟨value, _, rfl, fenced⟩⟩

instance {first : Rule α} {next : α → Rule β} [hfirst : Confined first]
    [hnext : ∀ value, Confined (next value)] : Confined (first >>= next) where
  answers fenced := by
    rcases hfirst.answers fenced with mismatch | ⟨value, rest, found, inside⟩
    · exact .inl (mismatch.bind _)
    · rcases (hnext value).answers inside with mismatch | ⟨result, after, more, still⟩
      · exact .inl (mismatch.behind found)
      · exact .inr ⟨result, after, (bind_of_matched found).trans more, still⟩

instance {first second : Rule α} [hfirst : Confined first] [hsecond : Confined second] :
    Confined (first <|> second) where
  answers fenced := by
    rcases hfirst.answers fenced with mismatch | ⟨value, rest, found, inside⟩
    · rcases hsecond.answers fenced with other | ⟨value, rest, found, inside⟩
      · exact .inl (mismatches_orElse_iff.mpr ⟨mismatch, other⟩)
      · exact .inr ⟨value, rest, orElse_matched_iff.mpr (.inr ⟨mismatch, found⟩), inside⟩
    · exact .inr ⟨value, rest, orElse_of_matched found _, inside⟩

instance {condition : Prop} [Decidable condition] {yes no : Rule α} [Confined yes]
    [Confined no] : Confined (if condition then yes else no) := by
  split <;> infer_instance

instance {rule : Rule α} [h : Confined rule] : Confined (optional rule) where
  answers fenced := by
    rcases h.answers fenced with mismatch | ⟨value, rest, found, inside⟩
    · exact .inr ⟨none, _, optional_of_mismatches mismatch, fenced⟩
    · exact .inr ⟨some value, rest, optional_of_matched found, inside⟩

instance {rule : Rule α} [h : Confined rule] : Confined (notFollowedBy rule) where
  answers fenced := by
    rcases h.answers fenced with mismatch | ⟨value, rest, found, -⟩
    · exact .inr ⟨(), _, notFollowedBy_matched_iff.mpr ⟨mismatch, rfl⟩, fenced⟩
    · exact .inl (mismatches_notFollowedBy_iff.mpr ⟨value, rest, found⟩)

instance (accepts : Char → Bool) [h : Lacks ')' accepts] : Confined (charWhere accepts) where
  answers fenced := by
    cases fenced with
    | fence => exact .inl (mismatches_charWhere_iff.mpr ((Text.stops_cons ..).mpr h.lacks))
    | @cons c rest _ more =>
      cases accepted : accepts c with
      | true => exact .inr ⟨c, rest, charWhere_cons accepted rest, more⟩
      | false => exact .inl (mismatches_charWhere_iff.mpr ((Text.stops_cons ..).mpr accepted))

instance (c : Char) [Lacks ')' (· == c)] : Confined (char c) :=
  inferInstanceAs (Confined (charWhere _))

instance (choices : Text) [Lacks ')' choices.contains] : Confined (oneOf choices) :=
  inferInstanceAs (Confined (charWhere _))

/-- What a class without the parenthesis leaves still has the parenthesis. -/
theorem fenced_dropWhile {accepts : Char → Bool} (h : accepts ')' = false) (fenced : text.Fenced) :
    Text.Fenced (text.dropWhile accepts) := by
  induction fenced with
  | fence behind =>
    rw [List.dropWhile_cons_of_neg (by simp [h])]
    exact .fence behind
  | @cons c rest nameChar more ih =>
    cases accepted : accepts c with
    | true => rwa [List.dropWhile_cons_of_pos accepted]
    | false =>
      rw [List.dropWhile_cons_of_neg (by simp [accepted])]
      exact .cons nameChar more

instance (accepts : Char → Bool) [h : Lacks ')' accepts] : Confined (takeWhile accepts) :=
  ⟨fun fenced => .inr ⟨_, _, rfl, fenced_dropWhile h.lacks fenced⟩⟩

instance (accepts : Char → Bool) [h : Lacks ')' accepts] : Confined (takeWhile1 accepts) where
  answers {text} fenced := by
    rcases answers (takeWhile1 accepts) text with mismatch | ⟨run, rest, taken⟩
    · exact .inl mismatch
    · refine .inr ⟨run, rest, taken, ?_⟩
      obtain ⟨rfl, -, all, stops⟩ := takeWhile1_matched_iff.mp taken
      exact Text.dropWhile_append_of_stops all stops ▸ fenced_dropWhile h.lacks fenced

instance : Confined whitespace :=
  have fence : isWhitespace ')' = false := by decide
  ⟨fun fenced => .inr ⟨_, _, rfl, fenced_dropWhile fence fenced⟩⟩

instance : Confined inlineWhitespace :=
  have fence : Text.isInline ')' = false := by decide
  ⟨fun fenced => .inr ⟨_, _, rfl, fenced_dropWhile fence fenced⟩⟩

/-- A text without the parenthesis at the front is cut off in front of the parenthesis. -/
theorem fenced_of_append {front rest : Text} (h : ')' ∉ front) (fenced : (front ++ rest).Fenced) :
    rest.Fenced := by
  induction front with
  | nil => exact fenced
  | cons c front ih =>
    rw [List.mem_cons, not_or] at h
    cases fenced with
    | fence => exact absurd rfl h.1
    | cons _ more => exact ih h.2 more

/-- A word without the parenthesis stays in front of it. -/
theorem confined_word {expected : Text} (h : ')' ∉ expected) : Confined (word expected) where
  answers {text} fenced := by
    rcases answers (word expected) text with mismatch | ⟨found, rest, taken⟩
    · exact .inl mismatch
    · obtain ⟨rfl, -⟩ := word_matched_iff.mp taken
      exact .inr ⟨found, rest, taken, fenced_of_append h fenced⟩

instance {rule : Rule α} [h : Confined rule] : Confined (many rule) where
  answers {text} fenced := by
    induction length : text.length using Nat.strongRecOn generalizing text with
    | _ n ih =>
      rcases h.answers fenced with mismatch | ⟨value, rest, found, inside⟩
      · exact .inr ⟨[], text, many_of_mismatches mismatch, fenced⟩
      · rw [Mismatches]
        simp only [many.eq_def rule text, found]
        split
        · next shorter =>
          rcases ih _ (length ▸ shorter) inside rfl with ⟨after, gaveUp⟩ | ⟨values, after, more, still⟩
          · exact .inl ⟨after, by rw [gaveUp]⟩
          · exact .inr ⟨value :: values, after, by rw [more], still⟩
        · exact .inl ⟨rest, rfl⟩

instance {rule : Rule α} [Confined rule] : Confined (many1 rule) := by
  unfold many1
  infer_instance

end Rule

namespace Grammar

open Rule

/-! ### The characters of the grammar -/

/-- The characters spelled out in literals and operators stand behind the parenthesis. -/
instance (n : Nat) : Lacks ')' (· == Char.ofNat (n + 42)) :=
  lacks_of_lt (by decide) n

instance : Lacks ')' (· == '%') := ⟨by decide⟩

instance : Lacks ')' (· == '!') := ⟨by decide⟩

instance : Lacks ')' isAlphabetic := ⟨by decide⟩

instance : Lacks ')' isAlphanumeric := ⟨by decide⟩

instance : Lacks ')' Char.isDigit := ⟨by decide⟩

instance : Lacks ')' isHexDigit := ⟨by decide⟩

instance : Lacks ')' isNameChar := ⟨by decide⟩

instance : Lacks ')' isTextChar := ⟨by decide⟩

/-! ### Terms -/

instance : Confined number := by
  have : Confined (word "0x".toList) := confined_word (by decide)
  unfold number hexadecimal decimal fraction exponent optionalText
  infer_instance

/-- The same whatever the case of the letters. -/
theorem confined_wordAnyCase {expected : Text} (h : ')' ∉ expected) :
    Confined (wordAnyCase expected) where
  answers {text} fenced := by
    rcases answers (wordAnyCase expected) text with mismatch | ⟨found, rest, taken⟩
    · exact .inl mismatch
    · obtain ⟨rfl, lower⟩ := wordAnyCase_matched_iff.mp taken
      -- No letter is lowered from the parenthesis.
      have inside : ')' ∉ found := fun fence => h (lower ▸ List.mem_map_of_mem fence)
      exact .inr ⟨found, rest, taken, fenced_of_append inside fenced⟩

instance : Confined numberOrBool := by
  have : Confined (wordAnyCase "true".toList) := confined_wordAnyCase (by decide)
  have : Confined (wordAnyCase "false".toList) := confined_wordAnyCase (by decide)
  unfold numberOrBool boolean
  infer_instance

instance : Barred quotedString where
  mismatches fenced := by
    rw [mismatches_quotedString_iff]
    cases fenced with
    | fence => simp
    | cons h => exact Text.head?_cons_ne h (by decide) _

instance : Barred listIndex := by
  have : Barred (char '[') := barred_char (by decide) (by decide)
  unfold listIndex
  infer_instance

instance : Barred callStart := by
  have : Barred (char '(') := barred_char (by decide) (by decide)
  have : Barred (word "::".toList) := barred_word (by decide) (by decide)
  unfold callStart functionName functionNamePart
  infer_instance

instance : Barred lineComment := by
  have : Barred (word CommentStyle.hash.marker) := barred_word (by decide) (by decide)
  have : Barred (word CommentStyle.doubleSlash.marker) := barred_word (by decide) (by decide)
  unfold lineComment commentStyle
  infer_instance

instance : Barred bracketedComment := by
  have : Barred (word "/*".toList) := barred_word (by decide) (by decide)
  exact Barred.bindFirst

instance : Barred comment :=
  inferInstanceAs (Barred (lineComment <|> bracketedComment))

instance : Confined operator := by
  have : Barred (word ">=".toList) := barred_word (by decide) (by decide)
  have : Barred (word "<=".toList) := barred_word (by decide) (by decide)
  have : Barred (word "!=".toList) := barred_word (by decide) (by decide)
  have : Barred (word "==".toList) := barred_word (by decide) (by decide)
  have : Barred (word "&&".toList) := barred_word (by decide) (by decide)
  have : Barred (word "||".toList) := barred_word (by decide) (by decide)
  have : Barred (char '/') := barred_char (by decide) (by decide)
  simp only [operator, anyWord]
  infer_instance

instance : Confined unquotedText := by
  unfold unquotedText
  infer_instance

instance : Confined accessor := by
  unfold accessor
  infer_instance

section Open
variable {inner : Inner}

instance : Confined (operand inner) := by
  have : Barred (char '(') := barred_char (by decide) (by decide)
  have : Barred (char '[') := barred_char (by decide) (by decide)
  have : Barred (char '{') := barred_char (by decide) (by decide)
  have : Barred (word "<<".toList) := barred_word (by decide) (by decide)
  unfold operand functionCall parenthesized forObject forList forLoop list map heredoc
    heredocHead scalar
  infer_instance

instance : Confined (operandWithAccessor inner) := by
  rw [operandWithAccessor_eq]
  infer_instance

instance : Confined (unaryOperand inner) where
  answers {text} fenced := by
    induction text using signs_induction with
    | step text ih =>
      rw [Mismatches, unaryOperand_eq]
      rcases confined (operandWithAccessor inner) fenced with unsigned | ⟨terms, rest, found, inside⟩
      · rw [orElse_of_mismatches unsigned]
        rcases confined (oneOf ['!', '-']) fenced with noSign | ⟨sign, behind, takes, inside⟩
        · exact .inl (noSign.bind _)
        · have fence : isWhitespace ')' = false := by decide
          rw [signedOperand, bind_of_matched takes, bind_of_matched (whitespace_apply behind)]
          rcases ih takes (fenced_dropWhile fence inside) with mismatch |
            ⟨terms, rest, found, still⟩
          · exact .inl (mismatch.bind _)
          · exact .inr ⟨_, rest, bind_of_matched found, still⟩
      · exact .inr ⟨terms, rest, orElse_of_matched found _, inside⟩

instance (multiline : Bool) : Confined (expressionTerms inner multiline) := by
  unfold expressionTerms
  infer_instance

instance : Confined (valueOver inner) := by
  unfold valueOver
  infer_instance

end Open

instance : Confined value where
  answers {text} fenced := by
    rw [Mismatches, value_eq]
    exact Confined.answers fenced

instance : Confined (elementItem inner) := by
  have : Barred (char ',') := barred_char (by decide) (by decide)
  have : Confined inner.value := inferInstanceAs (Confined value)
  unfold elementItem
  infer_instance

/-- What stands in front of a closing parenthesis makes no fault in an argument list. -/
theorem elements_of_fenced {text rest : Text} {fault : Fault} (h : text.Fenced) (bracket : Char)
    (construct : Construct) : elements inner bracket construct text ≠ .committed rest fault := by
  intro committed
  rw [elements_eq_many] at committed
  rcases confined (many (elementItem inner)) h with ⟨place, mismatch⟩ | ⟨found, behind, taken, inside⟩
  · rw [bind_apply, mismatch] at committed
    cases committed
  · -- What is left starts with a character of a name or with the parenthesis, so the text does not
    -- end there.
    obtain ⟨c, tail, start⟩ : ∃ c tail, behind.trimStart = c :: tail := by
      have : Text.Fenced behind.trimStart := fenced_dropWhile (by decide) inside
      generalize behind.trimStart = start at this
      cases this <;> exact ⟨_, _, rfl⟩
    rw [bind_of_matched taken, bind_apply, closing_of_cons start] at committed
    rcases answers (char bracket >>= fun _ => pure ()) (c :: tail) with ⟨place, mismatch⟩ |
      ⟨value, after, ends⟩
    · rw [mismatch] at committed
      cases committed
    · rw [ends] at committed
      cases committed

end Grammar

end HclSyntax
