import HclSyntax.Proofs.Text.Closing
import HclSyntax.Text.ByteLength
import Mathlib.Tactic.Common

/-!
# `HclSyntax.Proofs.Text.ByteLength`: bytes and characters give the same ends

Reading a text by its bytes finds the ends that reading it by its characters finds
(`Bytes.quotedTail_utf8` and `Bytes.templateTail_utf8`, which go on together as the two readings do).
What carries this is that a byte of a longer character is never a byte that counts (`Bytes.IsHigh`):
such bytes are stepped over one by one wherever the reading lands among them.
-/

set_option autoImplicit false

namespace HclSyntax

/-- A byte of a character that takes several bytes. -/
def Bytes.IsHigh (b : UInt8) : Prop :=
  128 ≤ b.toNat

/-! ### Characters in bytes -/

namespace Text

/-- A character that takes one byte. -/
def IsNarrow (c : Char) : Prop :=
  c.utf8Size = 1

instance (c : Char) : Decidable (IsNarrow c) :=
  inferInstanceAs (Decidable (_ = _))

/-- A character of several bytes is none of one byte. -/
theorem ne_of_not_isNarrow {c d : Char} (hc : ¬ IsNarrow c) (hd : IsNarrow d) : c ≠ d :=
  fun same => hc (same ▸ hd)

variable {c d : Char} {text : Text}

/-- The empty text has no bytes. -/
@[simp]
theorem utf8_nil : utf8 [] = [] := rfl

/-- The bytes of the first character come first. -/
theorem utf8_cons (c : Char) (text : Text) :
    utf8 (c :: text) = String.utf8EncodeChar c ++ utf8 text :=
  List.flatMap_cons

/-- The bytes of two texts in a row are those of the first and then those of the second. -/
@[simp]
theorem utf8_append (a b : Text) : utf8 (a ++ b) = utf8 a ++ utf8 b :=
  List.flatMap_append

/-- The number of bytes is the length that offsets are counted in. -/
@[simp]
theorem length_utf8 (text : Text) : (utf8 text).length = utf8Length text := by
  induction text with
  | nil => rfl
  | cons c rest ih =>
    rw [utf8_cons, List.length_append, String.length_utf8EncodeChar, ih, utf8Length_cons]

/-- The bytes behind those of a beginning. -/
theorem drop_utf8_append (front back : Text) :
    (utf8 (front ++ back)).drop (utf8Length front) = utf8 back := by
  rw [utf8_append, ← length_utf8, List.drop_left]

/-- A character of one byte is that byte. -/
theorem utf8_narrow (h : IsNarrow c) (text : Text) : utf8 (c :: text) = c.toUInt8 :: utf8 text := by
  rw [utf8_cons, String.utf8EncodeChar_eq_singleton h]
  rfl

/-- Its byte is its number, below all bytes of other characters. -/
theorem toNat_toUInt8 (h : IsNarrow c) : c.toUInt8.toNat = c.toNat ∧ c.toNat < 128 := by
  have small : c.val ≤ 127 := Char.utf8Size_eq_one_iff.mp h
  have bound : c.toNat < 128 := Nat.lt_succ_of_le (UInt32.le_iff_toNat_le.mp small)
  refine ⟨?_, bound⟩
  rw [Char.toUInt8, UInt32.toNat_toUInt8]
  exact Nat.mod_eq_of_lt (Nat.lt_trans bound (by decide))

/-- Characters of one byte can be told from their bytes. -/
theorem toUInt8_eq_iff (hc : IsNarrow c) (hd : IsNarrow d) : c.toUInt8 = d.toUInt8 ↔ c = d := by
  refine ⟨fun same => ?_, fun same => same ▸ rfl⟩
  have codes := congrArg UInt8.toNat same
  rw [(toNat_toUInt8 hc).1, (toNat_toUInt8 hd).1] at codes
  exact Char.toNat_inj.mp codes

/-- All bytes of a longer character are high. -/
theorem isHigh_of_mem_utf8EncodeChar (h : ¬ IsNarrow c) :
    ∀ b ∈ String.utf8EncodeChar c, Bytes.IsHigh b := by
  intro b hb
  have big : ¬ c.val.toNat ≤ 127 := fun small =>
    h (Char.utf8Size_eq_one_iff.mpr (UInt32.le_iff_toNat_le.mpr small))
  simp only [String.utf8EncodeChar, big, if_false] at hb
  unfold Bytes.IsHigh
  -- Characters of two, three and four bytes.
  split at hb
  · simp only [List.mem_cons, List.not_mem_nil, or_false] at hb
    rcases hb with rfl | rfl <;> simp <;> omega
  · split at hb
    · simp only [List.mem_cons, List.not_mem_nil, or_false] at hb
      rcases hb with rfl | rfl | rfl <;> simp <;> omega
    · simp only [List.mem_cons, List.not_mem_nil, or_false] at hb
      rcases hb with rfl | rfl | rfl | rfl <;> simp <;> omega

/-- It is none of the bytes of a character that takes several. -/
theorem toUInt8_ne_of_isHigh (h : IsNarrow c) {b : UInt8} (high : Bytes.IsHigh b) :
    b ≠ c.toUInt8 := by
  rintro rfl
  obtain ⟨code, small⟩ := toNat_toUInt8 h
  rw [Bytes.IsHigh, code] at high
  omega

/-- The first byte shows whether a character of one byte comes first. -/
theorem head?_utf8_eq_iff (h : IsNarrow c) :
    (utf8 text).head? = some c.toUInt8 ↔ text.head? = some c := by
  cases text with
  | nil => simp
  | cons d rest =>
    by_cases narrow : IsNarrow d
    · rw [utf8_narrow narrow, List.head?_cons, List.head?_cons, Option.some.injEq,
        Option.some.injEq, toUInt8_eq_iff narrow h]
    · obtain ⟨b, bytes, shape⟩ := List.exists_cons_of_ne_nil (@String.utf8EncodeChar_ne_nil d)
      have high := isHigh_of_mem_utf8EncodeChar narrow b (shape ▸ List.mem_cons_self)
      simp [utf8_cons, shape, toUInt8_ne_of_isHigh h high, ne_of_not_isNarrow narrow h]

end Text

/-! ### Stepping over high bytes -/

namespace Bytes

/-- Such a byte starts no template sequence. -/
theorem IsHigh.not_isTemplateMark {b : UInt8} (h : IsHigh b) : isTemplateMark b = false := by
  simp [isTemplateMark, Text.toUInt8_ne_of_isHigh (c := '$') (by decide) h,
    Text.toUInt8_ne_of_isHigh (c := '%') (by decide) h]

/-- In a quoted string such a byte is stepped over. -/
theorem quotedTail_cons_of_isHigh {b : UInt8} (h : IsHigh b) (rest : Bytes) :
    quotedTail (b :: rest) = (quotedTail rest).map (· + 1) := by
  rw [quotedTail, if_neg (Text.toUInt8_ne_of_isHigh (by decide) h), if_neg, if_neg]
  · simp [h.not_isTemplateMark]
  · simp [h.not_isTemplateMark, Text.toUInt8_ne_of_isHigh (c := '\\') (by decide) h]

/-- In a template sequence it is too. -/
theorem templateTail_cons_of_isHigh {b : UInt8} (h : IsHigh b) (braces : Nat) (rest : Bytes) :
    templateTail braces (b :: rest) = (templateTail braces rest).map (· + 1) := by
  rw [templateTail.eq_def]
  dsimp only
  rw [if_neg (Text.toUInt8_ne_of_isHigh (by decide) h),
    if_neg (Text.toUInt8_ne_of_isHigh (by decide) h),
    if_neg (Text.toUInt8_ne_of_isHigh (by decide) h)]

/-- A reading that steps over each high byte steps over all of them. -/
theorem append_of_isHigh {tail : Bytes → Option Nat}
    (step : ∀ b, IsHigh b → ∀ rest, tail (b :: rest) = (tail rest).map (· + 1)) {high : Bytes}
    (h : ∀ b ∈ high, IsHigh b) (rest : Bytes) :
    tail (high ++ rest) = (tail rest).map (· + high.length) := by
  induction high with
  | nil => simp
  | cons b high ih =>
    rw [List.cons_append, step b (h b List.mem_cons_self),
      ih fun d hd => h d (List.mem_cons_of_mem b hd), Option.map_map]
    rfl

/-- A longer character is stepped over. -/
theorem tail_utf8_cons {tail : Bytes → Option Nat}
    (step : ∀ b, IsHigh b → ∀ rest, tail (b :: rest) = (tail rest).map (· + 1)) {c : Char}
    (h : ¬ Text.IsNarrow c) (text : Text) :
    tail (Text.utf8 (c :: text)) = (tail (Text.utf8 text)).map (· + c.utf8Size) := by
  rw [Text.utf8_cons, append_of_isHigh step (Text.isHigh_of_mem_utf8EncodeChar h),
    String.length_utf8EncodeChar]

/-- Behind the first byte of a character the reading steps over the others. -/
theorem quotedTail_drop_utf8 (c : Char) (text : Text) :
    quotedTail ((Text.utf8 (c :: text)).drop 1)
      = (quotedTail (Text.utf8 text)).map (· + (c.utf8Size - 1)) := by
  by_cases narrow : Text.IsNarrow c
  · rw [Text.utf8_narrow narrow, show c.utf8Size = 1 from narrow]
    simp
  · have high := Text.isHigh_of_mem_utf8EncodeChar narrow
    obtain ⟨b, bytes, shape⟩ := List.exists_cons_of_ne_nil (@String.utf8EncodeChar_ne_nil c)
    have size := congrArg List.length shape
    rw [String.length_utf8EncodeChar, List.length_cons] at size
    rw [Text.utf8_cons, shape, size, List.cons_append, List.drop_succ_cons, List.drop_zero,
      Nat.add_sub_cancel]
    exact append_of_isHigh (fun _ => quotedTail_cons_of_isHigh)
      (fun d hd => high d (shape ▸ List.mem_cons_of_mem b hd)) _

/-- Two bytes are stepped over for an escape, and so is the character they may end in. -/
theorem quotedTail_escape (c : Char) (text : Text) :
    (quotedTail ((Text.utf8 (c :: text)).drop 1)).map (· + 2)
      = (quotedTail (Text.utf8 text)).map (· + (1 + c.utf8Size)) := by
  have pos := c.utf8Size_pos
  rw [quotedTail_drop_utf8, Option.map_map]
  congr 1
  funext length
  simp only [Function.comp_apply]
  omega

end Bytes

/-! ### Lengths of what is closed -/

namespace Text

variable {c d : Char}

/-- The number of bytes up to where the last of the open delimiters is closed. -/
def closeLength (opened : List Opening) (text : Text) : Option Nat :=
  (close opened text).map fun (span, _) => utf8Length span

/-- A step that takes some characters takes their bytes. -/
theorem closeLength_step {opened still : List Opening} {taken rest : Text}
    (h : Step opened taken rest still) :
    closeLength opened (taken ++ rest) = (closeLength still rest).map (· + utf8Length taken) := by
  rw [closeLength, closeLength, close_of_step h, Option.map_map, Option.map_map]
  congr 1
  funext ⟨span, after⟩
  simp [Nat.add_comm]

/-- The innermost delimiter is closed first, and the others in what follows it. -/
theorem closeLength_cons {inner : Opening} {outer : List Opening} {text : Text}
    {tail : Bytes → Option Nat}
    (agrees : ∀ after : Text, after.length ≤ text.length →
      tail (utf8 after) = closeLength outer after) :
    closeLength (inner :: outer) text
      = (closeLength [inner] text).bind fun inside =>
          (tail ((utf8 text).drop inside)).map (· + inside) := by
  rw [closeLength, closeLength]
  cases found : close [inner] text with
  | none => rw [← List.singleton_append, close_append_eq_none found]; rfl
  | some parts =>
    obtain ⟨span, after⟩ := parts
    -- The inner delimiter closes somewhere, and the outer ones are closed in what follows.
    obtain rfl := close_append found
    rw [← List.singleton_append, close_append_of_close found, Option.map_some, Option.bind_some,
      drop_utf8_append, agrees after (by simp), closeLength, Option.map_map, Option.map_map]
    congr 1
    funext ⟨inside, behind⟩
    simp [Nat.add_comm]

/-- With nothing open, nothing is to be closed. -/
theorem closeLength_nil (text : Text) : closeLength [] text = some 0 := by
  rw [closeLength, close_nil]
  rfl

/-- A quote ends a string. -/
theorem closeLength_quote_end (rest : Text) : closeLength [.quote] ('"' :: rest) = some 1 := by
  have ends := closeLength_step (.quote : Step [.quote] ['"'] rest [])
  rwa [closeLength_nil] at ends

/-- An escape takes the next character with it. -/
theorem closeLength_quote_pair {rest : Text} (notQuote : c ≠ '"')
    (pair : (c = '\\' || (isTemplateMark c && d = c)) = true) :
    closeLength [.quote] (c :: d :: rest)
      = (closeLength [.quote] rest).map (· + (c.utf8Size + d.utf8Size)) :=
  closeLength_step (.pair notQuote pair)

/-- A template sequence is stepped over before the string goes on. -/
theorem closeLength_quote_template {rest : Text} (notQuote : c ≠ '"')
    (single : ¬ (c = '\\' || (isTemplateMark c && '{' = c)) = true)
    (mark : isTemplateMark c = true) :
    closeLength [.quote] (c :: '{' :: rest)
      = (closeLength [.template 0, .quote] rest).map (· + (c.utf8Size + 1)) :=
  closeLength_step (.sequence notQuote single (by simpa using mark))

/-- A character of a string that means nothing where it stands is one step. -/
theorem closeLength_quote_plain {rest : Text} (notQuote : c ≠ '"')
    (single : ¬ (c = '\\' || (isTemplateMark c && rest.head? = some c)) = true)
    (plain : ¬ (isTemplateMark c && rest.head? = some '{') = true) :
    closeLength [.quote] (c :: rest) = (closeLength [.quote] rest).map (· + c.utf8Size) := by
  refine closeLength_step (.plain notQuote fun d head => ?_)
  rw [Option.mem_def.mp head] at single plain
  exact ⟨by simpa using single, by simpa using plain⟩

/-- In a template sequence one character is taken at a time. -/
theorem closeLength_template_cons (braces : Nat) (outer : List Opening) (c : Char) (rest : Text) :
    closeLength (.template braces :: outer) (c :: rest)
      = (closeLength (afterTemplateChar c braces outer) rest).map (· + c.utf8Size) :=
  closeLength_step .template

/-- A longer character means nothing in a string. -/
theorem closeLength_quote_wide (h : ¬ IsNarrow c) (rest : Text) :
    closeLength [.quote] (c :: rest) = (closeLength [.quote] rest).map (· + c.utf8Size) := by
  have apart {d : Char} (narrow : IsNarrow d) : c ≠ d := ne_of_not_isNarrow h narrow
  have notMark : isTemplateMark c = false := by
    simp [isTemplateMark, apart (d := '$') (by decide), apart (d := '%') (by decide)]
  exact closeLength_quote_plain (apart (by decide))
    (by simp [notMark, apart (d := '\\') (by decide)]) (by simp [notMark])

/-- A longer character means nothing in a template sequence. -/
theorem closeLength_template_wide (h : ¬ IsNarrow c) (braces : Nat) (rest : Text) :
    closeLength [.template braces] (c :: rest)
      = (closeLength [.template braces] rest).map (· + c.utf8Size) := by
  have apart {d : Char} (narrow : IsNarrow d) : c ≠ d := ne_of_not_isNarrow h narrow
  have still : afterTemplateChar c braces [] = [.template braces] := by
    unfold afterTemplateChar
    rw [if_neg (apart (by decide)), if_neg (apart (by decide)), if_neg (apart (by decide))]
  rw [closeLength_template_cons, still]

end Text

/-! ### The same ends -/

namespace Bytes

open Text

variable {c : Char}

/-- A character of one byte starts a template sequence exactly if its byte does. -/
theorem isTemplateMark_toUInt8 (h : IsNarrow c) :
    isTemplateMark c.toUInt8 = HclSyntax.isTemplateMark c := by
  rw [Bool.eq_iff_iff]
  simp only [isTemplateMark, HclSyntax.isTemplateMark, Bool.or_eq_true, beq_iff_eq,
    toUInt8_eq_iff h (show IsNarrow '$' by decide), toUInt8_eq_iff h (show IsNarrow '%' by decide)]

/-- One step in a quoted string, told by the character that takes it. -/
theorem quotedTail_narrow (h : IsNarrow c) (rest : Text) :
    quotedTail (utf8 (c :: rest))
      = if c = '"' then some 1
        else if c = '\\' || (HclSyntax.isTemplateMark c && rest.head? = some c) then
          (quotedTail ((utf8 rest).drop 1)).map (· + 2)
        else if HclSyntax.isTemplateMark c && rest.head? = some '{' then
          (templateTail 0 ((utf8 rest).drop 1)).bind fun inside =>
            (quotedTail ((utf8 rest).drop (1 + inside))).map (· + inside + 2)
        else (quotedTail (utf8 rest)).map (· + 1) := by
  rw [utf8_narrow h, quotedTail]
  simp only [toUInt8_eq_iff h (show IsNarrow '"' by decide),
    toUInt8_eq_iff h (show IsNarrow '\\' by decide), isTemplateMark_toUInt8 h, head?_utf8_eq_iff h,
    head?_utf8_eq_iff (show IsNarrow '{' by decide)]

/-- One step in a template sequence, told by the character that takes it. -/
theorem templateTail_narrow (h : IsNarrow c) (braces : Nat) (rest : Text) :
    templateTail braces (utf8 (c :: rest))
      = if c = '"' then
          (quotedTail (utf8 rest)).bind fun inside =>
            (templateTail braces ((utf8 rest).drop inside)).map (· + inside + 1)
        else if c = '{' then (templateTail (braces + 1) (utf8 rest)).map (· + 1)
        else if c = '}' then
          match braces with
          | 0 => some 1
          | inner + 1 => (templateTail inner (utf8 rest)).map (· + 1)
        else (templateTail braces (utf8 rest)).map (· + 1) := by
  rw [utf8_narrow h]
  cases braces <;>
    simp only [templateTail, toUInt8_eq_iff h (show IsNarrow '"' by decide),
      toUInt8_eq_iff h (show IsNarrow '{' by decide), toUInt8_eq_iff h (show IsNarrow '}' by decide)]

mutual

/-- The end of a quoted string is where its characters end it. -/
theorem quotedTail_utf8 : ∀ text : Text, quotedTail (utf8 text) = closeLength [.quote] text
  | [] => by rw [utf8_nil, quotedTail]; rfl
  | c :: rest => by
    by_cases narrow : IsNarrow c
    · have width : c.utf8Size = 1 := narrow
      rw [quotedTail_narrow narrow]
      split_ifs with isQuote pair opens
      · rw [isQuote, closeLength_quote_end]
      · cases rest with
        | nil =>
          -- A backslash at the end: there is nothing to skip, and the string is not closed.
          rw [utf8_nil, List.drop_nil, quotedTail]
          simp [closeLength, close, isQuote]
        | cons d tail =>
          rw [quotedTail_escape, quotedTail_utf8 tail,
            closeLength_quote_pair isQuote (by simpa using pair), width]
      · cases rest with
        | nil => simp at opens
        | cons d tail =>
          obtain ⟨mark, rfl⟩ : HclSyntax.isTemplateMark c = true ∧ d = '{' := by simpa using opens
          rw [closeLength_quote_template isQuote (by simpa using pair) mark, width,
            closeLength_cons fun after _ => quotedTail_utf8 after, utf8_narrow (by decide),
            List.drop_succ_cons, List.drop_zero, templateTail_utf8 0 tail, Option.map_bind]
          simp only [Function.comp_def, Option.map_map, Nat.add_comm 1, List.drop_succ_cons]
      · rw [quotedTail_utf8 rest, closeLength_quote_plain isQuote pair opens, width]
    · rw [tail_utf8_cons (fun _ => quotedTail_cons_of_isHigh) narrow, quotedTail_utf8 rest,
        closeLength_quote_wide narrow]
termination_by text => text.length

/-- The scan of the bytes finds the end of a template sequence where the scan of the text does. -/
theorem templateTail_utf8 (braces : Nat) : ∀ text : Text,
    templateTail braces (utf8 text) = closeLength [.template braces] text
  | [] => by rw [utf8_nil, templateTail]; rfl
  | c :: rest => by
    -- All that the scan looks for are characters of one byte.
    by_cases narrow : IsNarrow c
    · rw [closeLength_template_cons, templateTail_narrow narrow, show c.utf8Size = 1 from narrow]
      unfold afterTemplateChar
      split_ifs with isQuote isOpening isClosing
      · rw [closeLength_cons fun after _ => templateTail_utf8 braces after, quotedTail_utf8 rest,
          Option.map_bind]
        simp only [Function.comp_def, Option.map_map]
      · rw [templateTail_utf8 (braces + 1) rest]
      · cases braces with
        | zero => rw [closeLength_nil]; rfl
        | succ inner => simp only [templateTail_utf8 inner rest]
      · rw [templateTail_utf8 braces rest]
    · rw [tail_utf8_cons (fun _ h => templateTail_cons_of_isHigh h braces) narrow,
        templateTail_utf8 braces rest, closeLength_template_wide narrow]
termination_by text => text.length

end

end Bytes

end HclSyntax
