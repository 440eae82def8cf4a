import HclSyntax.Proofs.Rule.Outcome

/-!
# `HclSyntax.Proofs.Text.CharacterClass`: how the classes of characters lie

The grammar is written in a handful of classes, and ordered choice turns on them being apart: no
letter or numeral is white space, nor is a mark that may stand between them
(`isWhitespace_of_isAlphanumeric_or_mem`), and a digit is a numeral but no letter.
-/

set_option autoImplicit false

namespace HclSyntax

/-- The code points of white space. -/
def whitespaceCodes : List Nat :=
  [0x9, 0xA, 0xB, 0xC, 0xD, 0x20, 0x85, 0xA0, 0x1680, 0x2000, 0x2001, 0x2002, 0x2003, 0x2004,
    0x2005, 0x2006, 0x2007, 0x2008, 0x2009, 0x200A, 0x2028, 0x2029, 0x202F, 0x205F, 0x3000]

/-- White space is one of finitely many characters. -/
theorem toNat_mem_whitespaceCodes {c : Char} (h : isWhitespace c = true) :
    c.toNat ∈ whitespaceCodes := by
  simp only [isWhitespace, inRanges, List.any_cons, List.any_nil, Bool.or_false, Bool.or_eq_true,
    Bool.and_eq_true, decide_eq_true_eq] at h
  simp only [whitespaceCodes, List.mem_cons, List.not_mem_nil, or_false]
  omega

/-- A property of every white space character is checked on the list of them. -/
theorem isWhitespace_induction {holds : Char → Prop}
    (each : ∀ n ∈ whitespaceCodes, holds (Char.ofNat n)) {c : Char} (h : isWhitespace c = true) :
    holds c := by
  have := each c.toNat (toNat_mem_whitespaceCodes h)
  rwa [Char.ofNat_toNat] at this

/-- Neither letters nor numerals are white space. -/
theorem isWhitespace_of_isAlphanumeric {c : Char} (h : isAlphanumeric c = true) :
    isWhitespace c = false := by
  have none : ∀ n ∈ whitespaceCodes, isAlphanumeric (Char.ofNat n) = false := by decide +kernel
  rw [← Bool.not_eq_true]
  intro space
  have := @isWhitespace_induction (isAlphanumeric · = false) none c space
  simp [h] at this

/-- The characters of a word are letters, numerals and some visible marks. None of them is white
space. -/
theorem isWhitespace_of_isAlphanumeric_or_mem {marks : List Char} {c : Char}
    (visible : ∀ mark ∈ marks, isWhitespace mark = false)
    (h : isAlphanumeric c = true ∨ c ∈ marks) : isWhitespace c = false := by
  rcases h with word | mark
  · exact isWhitespace_of_isAlphanumeric word
  · exact visible c mark

/-- A property of every ASCII character is checked on the list of them. -/
theorem ascii_induction {holds : Char → Prop} (each : ∀ n < 0x80, holds (Char.ofNat n)) {c : Char}
    (h : c.toNat < 0x80) : holds c := by
  have := each c.toNat h
  rwa [Char.ofNat_toNat] at this

/-- A hexadecimal digit is below all characters that take several bytes. -/
theorem toNat_lt_of_isHexDigit {c : Char} (h : isHexDigit c = true) : c.toNat < 0x80 := by
  simp only [isHexDigit, Char.isDigit, Bool.or_eq_true, Bool.and_eq_true, decide_eq_true_eq,
    Char.le_def, ge_iff_le, UInt32.le_iff_toNat_le] at h
  change c.val.toNat < 0x80
  rcases h with (⟨-, high⟩ | ⟨-, high⟩) | ⟨-, high⟩ <;> exact Nat.lt_of_le_of_lt high (by decide)

/-- A hexadecimal digit is a letter or a numeral. -/
theorem isAlphanumeric_of_isHexDigit {c : Char} (h : isHexDigit c = true) :
    isAlphanumeric c = true := by
  have each : ∀ n < 0x80, isHexDigit (Char.ofNat n) = true → isAlphanumeric (Char.ofNat n) = true := by
    decide +kernel
  have ascii := toNat_lt_of_isHexDigit h
  exact @ascii_induction (fun c => isHexDigit c = true → isAlphanumeric c = true) each c ascii h

/-- A digit is a hexadecimal one. -/
theorem isHexDigit_of_isDigit {c : Char} (h : c.isDigit = true) : isHexDigit c = true := by
  simp [isHexDigit, h]

/-- A digit is a numeral. -/
theorem isAlphanumeric_of_isDigit {c : Char} (h : c.isDigit = true) : isAlphanumeric c = true :=
  isAlphanumeric_of_isHexDigit (isHexDigit_of_isDigit h)

/-- A digit is no letter. -/
theorem isAlphabetic_of_isDigit {c : Char} (h : c.isDigit = true) : isAlphabetic c = false := by
  have each : ∀ n < 0x80, (Char.ofNat n).isDigit = true → isAlphabetic (Char.ofNat n) = false := by
    decide +kernel
  have ascii := toNat_lt_of_isHexDigit (isHexDigit_of_isDigit h)
  exact @ascii_induction (fun c => c.isDigit = true → isAlphabetic c = false) each c ascii h

/-- A letter starts no number. -/
theorem startsNumber_of_isAlphabetic {c : Char} (letter : isAlphabetic c = true) :
    (c.isDigit || c == '-') = false := by
  rw [← Bool.not_eq_true]
  intro digit
  simp only [Bool.or_eq_true, beq_iff_eq] at digit
  rcases digit with digit | rfl
  · simp [isAlphabetic_of_isDigit digit] at letter
  · exact absurd letter (by decide)

end HclSyntax
