import HclSyntax.Proofs.Text.ByteLength

/-!
# `HclSyntax.Proofs.Text.SelfDelimiting`: quoted strings show where they end

A quoted string and a template sequence can be cut out of any text: where they end depends on nothing
behind that place, and no earlier place will do. `Text.SelfDelimits` says so in bytes, as offsets are
counted. `Text.selfDelimits` proves it once for both, from what closing a delimiter means in characters
and from the agreement of bytes and characters.
-/

set_option autoImplicit false

namespace HclSyntax.Text

/-- The length that is found at the start of a text lies in the text, right behind the character that
it ends with; it is found again when anything else follows; and nothing is found in a beginning of the
text that is shorter but has the opening delimiter. -/
structure SelfDelimits (length : Bytes → Option Nat) (opening : Text) (last : Char) (text : Text)
    (n : Nat) : Prop where
  inBounds : n ≤ utf8Length text
  boundary : ∃ front after, text = front ++ last :: after ∧ n = utf8Length (front ++ [last])
  again : ∀ more : Text, length ((utf8 text).take n ++ utf8 more) = some n
  shorter : ∀ front : Text, front <+: text → opening <+: front → utf8Length front < n →
    length (utf8 front) = none

/-! ### Closing one delimiter -/

/-- A beginning of a text that is too short to hold what closes a delimiter does not close it. -/
theorem close_eq_none_of_shorter {opened : List Opening} {front back span after : Text}
    (h : close opened (front ++ back) = some (span, after))
    (less : utf8Length front < utf8Length span) : close opened front = none := by
  refine Option.eq_none_iff_forall_ne_some.mpr fun parts found => ?_
  obtain ⟨inside, behind⟩ := parts
  obtain rfl := close_append found
  -- What the beginning closes is closed at the same place in the whole text.
  have again := close_span_append found (behind ++ back)
  rw [← List.append_assoc, h, Option.some.injEq, Prod.mk.injEq] at again
  rw [again.1, utf8Length_append] at less
  omega

/-- A reading of bytes that finds the end of a delimiter, where its characters close it, finds where
the text delimits itself. -/
theorem selfDelimits {length : Bytes → Option Nat} {opening : Text} {delimiter : Opening}
    {last : Char} (closes : closing? [delimiter] = some last)
    (agrees : ∀ inside : Text, length (utf8 (opening ++ inside))
      = (closeLength [delimiter] inside).map (· + utf8Length opening))
    {text : Text} (starts : opening <+: text) {n : Nat} (found : length (utf8 text) = some n) :
    SelfDelimits length opening last text n := by
  -- The scan of the bytes is that of the text, which splits off a span that ends with the
  -- delimiter.
  obtain ⟨inside, rfl⟩ := starts
  rw [agrees, closeLength, Option.map_map, Option.map_eq_some_iff] at found
  obtain ⟨⟨span, after⟩, closed, rfl⟩ := found
  obtain rfl := close_append closed
  obtain ⟨body, rfl⟩ := List.getLast?_eq_some_iff.mp (getLast?_of_close closed closes)
  simp only [Function.comp_apply]
  refine ⟨?_, ⟨opening ++ body, after, ?_, ?_⟩, fun more => ?_, ?_⟩
  · simp only [utf8Length_append]
    omega
  · simp
  · simp only [utf8Length_append]
    omega
  · have taken : (utf8 (opening ++ (body ++ [last] ++ after))).take
        (utf8Length (body ++ [last]) + utf8Length opening) = utf8 (opening ++ (body ++ [last])) := by
      rw [← List.append_assoc, utf8_append, Nat.add_comm, ← utf8Length_append, ← length_utf8,
        List.take_left]
    rw [taken, ← utf8_append, List.append_assoc, agrees, closeLength, close_span_append closed]
    rfl
  · rintro _ ⟨back, whole⟩ ⟨front, rfl⟩ less
    rw [List.append_assoc, List.append_cancel_left_eq] at whole
    rw [utf8Length_append] at less
    rw [agrees, closeLength, close_eq_none_of_shorter (whole ▸ closed) (by omega)]
    rfl

/-! ### Strings and sequences -/

/-- The length of a quoted string in bytes is that of the text in it and of its quote. -/
theorem quotedLength_utf8 (inside : Text) :
    Bytes.quotedLength (utf8 (['"'] ++ inside))
      = (closeLength [.quote] inside).map (· + utf8Length ['"']) := by
  rw [List.singleton_append, utf8_narrow (by decide), Bytes.quotedLength, List.drop_succ_cons,
    List.drop_zero, Bytes.quotedTail_utf8]
  rfl

/-- The length of a template sequence in bytes is that of the text in it and of its opening. -/
theorem templateLength_utf8 {mark : Char} (h : isTemplateMark mark = true) (inside : Text) :
    Bytes.templateLength (utf8 ([mark, '{'] ++ inside))
      = (closeLength [.template 0] inside).map (· + utf8Length [mark, '{']) := by
  obtain rfl | rfl : mark = '$' ∨ mark = '%' := by simpa [isTemplateMark] using h
  all_goals
    rw [List.cons_append, List.singleton_append, utf8_narrow (by decide), utf8_narrow (by decide),
      Bytes.templateLength, List.drop_succ_cons, List.drop_succ_cons, List.drop_zero,
      Bytes.templateTail_utf8]
    rfl

/-- The bytes of a quoted string are those of its characters. -/
theorem quotedLength_eq_quotedSpan {text : Text} (starts : ['"'] <+: text) :
    Bytes.quotedLength (utf8 text) = (quotedSpan text).map fun found => utf8Length found.1 := by
  obtain ⟨inside, rfl⟩ := starts
  rw [quotedLength_utf8, List.singleton_append, quotedSpan, if_pos rfl, closeLength, Option.map_map,
    Option.map_map]
  congr 1
  funext found
  simp [Nat.add_comm]

/-- The bytes of a template sequence are those of its characters. -/
theorem templateLength_eq_templateSpan {mark : Char} (h : isTemplateMark mark = true) {text : Text}
    (starts : [mark, '{'] <+: text) :
    Bytes.templateLength (utf8 text) = (templateSpan text).map fun found => utf8Length found.1 := by
  obtain ⟨inside, rfl⟩ := starts
  rw [templateLength_utf8 h, List.cons_append, List.singleton_append, templateSpan,
    if_pos (by simp [h]), closeLength, Option.map_map, Option.map_map]
  congr 1
  funext found
  simp only [Function.comp_apply, utf8Length_cons, utf8Length_nil]
  omega

/-- Quoted strings and template sequences are self-delimiting. At the start of a text that opens one,
the bytes are read to the end that its characters have, and a length that is found lies in the text,
right behind the closing quote or brace; it is the same whatever follows there, and no length is
found in a shorter beginning of the text that still opens the string or sequence. -/
theorem spans_selfDelimit :
    (∀ text : Text, ['"'] <+: text →
      Bytes.quotedLength (utf8 text) = (quotedSpan text).map (fun found => utf8Length found.1)
        ∧ ∀ n, Bytes.quotedLength (utf8 text) = some n →
          SelfDelimits Bytes.quotedLength ['"'] '"' text n)
      ∧ ∀ (mark : Char) (text : Text), isTemplateMark mark = true → [mark, '{'] <+: text →
        Bytes.templateLength (utf8 text) = (templateSpan text).map (fun found => utf8Length found.1)
          ∧ ∀ n, Bytes.templateLength (utf8 text) = some n →
            SelfDelimits Bytes.templateLength [mark, '{'] '}' text n :=
  ⟨fun _ starts => ⟨quotedLength_eq_quotedSpan starts,
      fun _ found => selfDelimits rfl quotedLength_utf8 starts found⟩,
    fun _ _ marks starts => ⟨templateLength_eq_templateSpan marks starts,
      fun _ found => selfDelimits rfl (templateLength_utf8 marks) starts found⟩⟩

/-- A string with an escape in front of a character of two bytes and a sequence with a quoted brace
inside, and a sequence with braces inside. -/
theorem spans_selfDelimit_nested :
    SelfDelimits Bytes.quotedLength ['"'] '"'
        ['"', '\\', 'é', '$', '{', '"', '}', '"', '}', '"', '+'] 11
      ∧ SelfDelimits Bytes.templateLength ['%', '{'] '}' ['%', '{', '{', '}', '}', '"'] 5 := by
  obtain ⟨quoted, sequences⟩ := spans_selfDelimit
  obtain ⟨length, delimits⟩ :=
    quoted ['"', '\\', 'é', '$', '{', '"', '}', '"', '}', '"', '+'] (by decide)
  obtain ⟨inside, bounds⟩ := sequences '%' ['%', '{', '{', '}', '}', '"'] (by decide) (by decide)
  exact ⟨delimits 11 (length.trans rfl), bounds 5 (inside.trans rfl)⟩

end HclSyntax.Text
