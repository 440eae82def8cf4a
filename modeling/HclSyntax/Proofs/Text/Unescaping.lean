import HclSyntax.Proofs.Text.Quoting
import Mathlib

/-!
# `HclSyntax.Proofs.Text.Unescaping`: what escapes mean

The reference is a relation. `Text.Writes` lists the escapes: a letter of `Text.letterEscapes`, or a
letter of `Text.codePointLetters` with exactly as many hexadecimal digits behind it as it asks for,
when they name a character. `Text.Decodes` reads a text from left to right by them and keeps every
other backslash as it stands, and `Text.DecodesPieces` does so outside the template sequences of a
source.

`unescape` takes one thing more for an escape, a code point whose first digit is a plus sign
(`Text.WritesSigned`), because `numeral?` is asked for what is behind a sign. So `escaped?` is
determined completely by the two lists (`escaped?_eq_some_iff`), and a source is unescaped to what the
reference decodes exactly when the scan meets no such sign (`unescape_decodes_iff`). That the scan
meets one is a relation as well, `Text.MeetsSign`: a sign behind an escaped backslash is not met.
-/

set_option autoImplicit false

namespace HclSyntax

namespace Text

/-! ### The reference -/

/-- The letters that write a character behind a backslash. -/
def letterEscapes : List (Char × Char) :=
  [('n', '\n'), ('r', '\r'), ('t', '\t'), ('a', '\x07'), ('b', '\x08'), ('v', '\x0b'), ('f', '\x0c'),
    ('"', '"'), ('\\', '\\')]

/-- The letters that write a character by its code point, and the number of digits behind them. -/
def codePointLetters : List (Char × Nat) :=
  [('u', 4), ('U', 8)]

/-- `Writes letter digits c`: a backslash, the letter and the digits write the character `c`. -/
inductive Writes : Char → Text → Char → Prop
  | letter {letter c : Char} (listed : (letter, c) ∈ letterEscapes) : Writes letter [] c
  | codePoint {letter c : Char} {count : Nat} {digits : Text}
    (counted : (letter, count) ∈ codePointLetters) (length : digits.length = count)
    (hexadecimal : ∀ d ∈ digits, isHexDigit d = true)
    (names : numeral? 16 digits = some c.toNat) : Writes letter digits c

/-- A code point with a plus sign in the place of its first digit. -/
inductive WritesSigned : Char → Text → Char → Prop
  | intro {letter c : Char} {count : Nat} {digits : Text}
    (counted : (letter, count) ∈ codePointLetters) (length : digits.length + 1 = count)
    (hexadecimal : ∀ d ∈ digits, isHexDigit d = true)
    (names : numeral? 16 digits = some c.toNat) : WritesSigned letter ('+' :: digits) c

/-- `Decodes source meaning`: read from left to right, escapes are replaced by the characters they
write, and every other backslash is kept together with the character behind it. -/
inductive Decodes : Text → Text → Prop
  | nil : Decodes [] []
  | char {c : Char} {rest meaning : Text} (plain : c ≠ '\\') (more : Decodes rest meaning) :
    Decodes (c :: rest) (c :: meaning)
  | escape {letter c : Char} {digits rest meaning : Text} (writes : Writes letter digits c)
    (more : Decodes rest meaning) : Decodes ('\\' :: letter :: (digits ++ rest)) (c :: meaning)
  | kept {letter : Char} {rest meaning : Text}
    (nothing : ∀ digits behind c, rest = digits ++ behind → ¬ Writes letter digits c)
    (more : Decodes rest meaning) : Decodes ('\\' :: letter :: rest) ('\\' :: letter :: meaning)
  | last : Decodes ['\\'] ['\\']

/-- The scan meets a code point with a plus sign. -/
inductive MeetsSign : Text → Prop
  | here {letter c : Char} {digits rest : Text} (signed : WritesSigned letter digits c) :
    MeetsSign ('\\' :: letter :: (digits ++ rest))
  | char {c : Char} {rest : Text} (plain : c ≠ '\\') (more : MeetsSign rest) : MeetsSign (c :: rest)
  | escape {letter c : Char} {digits rest : Text} (writes : Writes letter digits c)
    (more : MeetsSign rest) : MeetsSign ('\\' :: letter :: (digits ++ rest))
  | kept {letter : Char} {rest : Text}
    (nothing : ∀ digits behind c, rest = digits ++ behind → ¬ Writes letter digits c)
    (more : MeetsSign rest) : MeetsSign ('\\' :: letter :: rest)

/-! ### Digits -/

/-- The digits of base sixteen are the hexadecimal digits. -/
theorem isDigitOf_sixteen (c : Char) : isDigitOf 16 c = isHexDigit c := by
  have le (a b : Char) : a ≤ b ↔ a.toNat ≤ b.toNat := UInt32.le_iff_toNat_le
  rw [Bool.eq_iff_iff]
  simp only [isDigitOf, digitValue?, isHexDigit, Char.isDigit_iff_toNat, Bool.or_eq_true, Bool.and_eq_true,
    decide_eq_true_iff, le]
  split_ifs <;> simp at * <;> omega

/-- A numeral is made of digits of its base. -/
theorem isDigitOf_of_numeral? {base n : Nat} {digits : Text} (h : numeral? base digits = some n) :
    ∀ d ∈ digits, isDigitOf base d = true := by
  unfold numeral? at h
  split_ifs at h with none
  simp at none
  exact none.2

/-- A numeral with a plus sign in front of it is none. -/
theorem numeral?_plus (digits : Text) : numeral? 16 ('+' :: digits) = none := by
  have noDigit : isDigitOf 16 '+' = false := by decide
  simp [numeral?, noDigit]

/-- A sign in front of digits is skipped. -/
theorem numeral?_unsigned_iff {digits : Text} {n : Nat} :
    numeral? 16 (if digits.head? = some '+' then digits.tail else digits) = some n
      ↔ numeral? 16 digits = some n
          ∨ ∃ others, digits = '+' :: others ∧ numeral? 16 others = some n := by
  split_ifs with sign
  · obtain ⟨others, rfl⟩ := List.head?_eq_some_iff.mp sign
    simp [numeral?_plus]
  · refine ⟨.inl, ?_⟩
    rintro (named | ⟨others, rfl, -⟩)
    · exact named
    · exact absurd rfl sign

/-! ### Escapes -/

/-- The characters that are counted off name a character as they are, or with a plus sign as the
first of them. -/
theorem codePoint?_eq_some_iff {count : Nat} {following : Text} {c : Char} :
    codePoint? count following = some c
      ↔ ∃ digits behind, following = digits ++ behind ∧ digits.length = count
          ∧ (numeral? 16 digits = some c.toNat
              ∨ ∃ others, digits = '+' :: others ∧ numeral? 16 others = some c.toNat) := by
  have valid : c.toNat.isValidChar := c.valid
  simp only [codePoint?, ← numeral?_unsigned_iff]
  constructor
  · intro h
    by_cases short : (following.take count).length < count
    · rw [if_pos short] at h
      cases h
    rw [if_neg short] at h
    have length : (following.take count).length = count :=
      Nat.le_antisymm (List.length_take_le ..) (Nat.not_lt.mp short)
    refine ⟨_, _, (List.take_append_drop count following).symm, length, ?_⟩
    -- The number that is read must be one of a character.
    generalize numeral? 16 _ = named at h ⊢
    cases named with
    | none => cases h
    | some code =>
      dsimp only at h
      split_ifs at h with valid
      rw [← Option.some.inj h, Char.toNat_ofNat, if_pos valid]
  · rintro ⟨digits, behind, rfl, rfl, named⟩
    rw [List.take_left, if_neg (Nat.lt_irrefl _), named]
    simp [valid]

/-- What a listed letter writes does not depend on what follows it. -/
theorem escaped?_letter {letter c : Char} (listed : (letter, c) ∈ letterEscapes) (following : Text) :
    escaped? letter following = some (c, 0) := by
  have all : ∀ pair ∈ letterEscapes,
      namedEscapes.find? (·.2 = pair.1) = some (pair.2, pair.1) := by decide
  rw [escaped?, all _ listed]

/-- A code point takes as many digits as its letter says. -/
theorem escaped?_codePoint {letter : Char} {count : Nat} (counted : (letter, count) ∈ codePointLetters)
    (following : Text) :
    escaped? letter following = (codePoint? count following).map (·, count) := by
  simp only [codePointLetters, List.mem_cons, Prod.mk.injEq, List.not_mem_nil, or_false] at counted
  rcases counted with ⟨rfl, rfl⟩ | ⟨rfl, rfl⟩ <;> rfl

/-- Every letter is one of the two lists or writes nothing. -/
theorem escaped?_cases (letter : Char) :
    (∃ c, (letter, c) ∈ letterEscapes) ∨ (∃ count, (letter, count) ∈ codePointLetters)
      ∨ ∀ following, escaped? letter following = none := by
  have all : ∀ pair ∈ namedEscapes, (pair.2, pair.1) ∈ letterEscapes := by decide
  cases found : namedEscapes.find? (·.2 = letter) with
  | some pair =>
    obtain rfl : pair.2 = letter := by simpa using List.find?_some found
    exact .inl ⟨_, all _ (List.mem_of_find?_eq_some found)⟩
  | none =>
    by_cases short : letter = 'u'
    · exact .inr (.inl ⟨4, by simp [codePointLetters, short]⟩)
    by_cases long : letter = 'U'
    · exact .inr (.inl ⟨8, by simp [codePointLetters, long]⟩)
    · refine .inr (.inr fun following => ?_)
      rw [escaped?, found]
      simp [short, long]

/-- A letter is on one of the two lists only. -/
theorem codePointLetters_apart {letter c : Char} {count : Nat}
    (counted : (letter, count) ∈ codePointLetters) : (letter, c) ∉ letterEscapes := by
  simp only [codePointLetters, List.mem_cons, Prod.mk.injEq, List.not_mem_nil, or_false] at counted
  rcases counted with ⟨rfl, -⟩ | ⟨rfl, -⟩ <;> simp [letterEscapes]

/-- What a letter and what follows it write, and how much of it: the digits are those of an escape, or
of a code point with a plus sign. -/
theorem escaped?_eq_some_iff {letter c : Char} {following : Text} {used : Nat} :
    escaped? letter following = some (c, used)
      ↔ ∃ digits behind, following = digits ++ behind ∧ digits.length = used
          ∧ (Writes letter digits c ∨ WritesSigned letter digits c) := by
  constructor
  · intro h
    -- The letter names a character, counts the digits of a code point, or does neither.
    rcases escaped?_cases letter with ⟨d, listed⟩ | ⟨count, counted⟩ | nothing
    · rw [escaped?_letter listed] at h
      cases h
      exact ⟨[], following, rfl, rfl, .inl (.letter listed)⟩
    · rw [escaped?_codePoint counted, Option.map_eq_some_iff] at h
      obtain ⟨d, named, same⟩ := h
      cases same
      obtain ⟨digits, behind, rfl, length, named⟩ := codePoint?_eq_some_iff.mp named
      have hexadecimal {digits : Text} (named : numeral? 16 digits = some c.toNat) :
          ∀ d ∈ digits, isHexDigit d = true := fun d mem =>
        isDigitOf_sixteen d ▸ isDigitOf_of_numeral? named d mem
      refine ⟨digits, behind, rfl, length, ?_⟩
      rcases named with names | ⟨others, rfl, names⟩
      · exact .inl (.codePoint counted length (hexadecimal names) names)
      · exact .inr (.intro counted length (hexadecimal names) names)
    · rw [nothing] at h
      cases h
  · rintro ⟨digits, behind, rfl, rfl, writes | signed⟩
    · cases writes with
      | letter listed => exact escaped?_letter listed _
      | codePoint counted length hexadecimal names =>
        subst length
        rw [escaped?_codePoint counted, codePoint?_eq_some_iff.mpr ⟨digits, behind, rfl, rfl, .inl names⟩]
        rfl
    · cases signed with
      | @intro _ _ digits counted length hexadecimal names =>
        subst length
        rw [escaped?_codePoint counted, codePoint?_eq_some_iff.mpr
          ⟨'+' :: digits, behind, rfl, List.length_cons, .inr ⟨digits, rfl, names⟩⟩]
        rfl

/-- A letter and digits behind it write one character, whatever follows them. -/
theorem Writes.escaped? {letter c : Char} {digits : Text} (writes : Writes letter digits c)
    (behind : Text) : escaped? letter (digits ++ behind) = some (c, digits.length) :=
  escaped?_eq_some_iff.mpr ⟨digits, behind, rfl, rfl, .inl writes⟩

/-- A code point with a plus sign is taken for an escape. -/
theorem WritesSigned.escaped? {letter c : Char} {digits : Text}
    (signed : WritesSigned letter digits c) (behind : Text) :
    escaped? letter (digits ++ behind) = some (c, digits.length) :=
  escaped?_eq_some_iff.mpr ⟨digits, behind, rfl, rfl, .inr signed⟩

/-- Only one escape can start at a place. -/
theorem Writes.unique {letter c d : Char} {digits others behind after : Text}
    (writes : Writes letter digits c) (again : Writes letter others d)
    (same : digits ++ behind = others ++ after) : d = c ∧ others = digits ∧ after = behind := by
  have first := writes.escaped? behind
  rw [same, again.escaped? after, Option.some.injEq, Prod.mk.injEq] at first
  obtain ⟨rfl, length⟩ := first
  obtain ⟨rfl, rfl⟩ := List.append_inj same length.symm
  exact ⟨rfl, rfl, rfl⟩

/-- A sign is no digit. -/
theorem WritesSigned.not_writes {letter c d : Char} {digits others behind after : Text}
    (signed : WritesSigned letter digits c) (same : digits ++ behind = others ++ after) :
    ¬ Writes letter others d := by
  intro writes
  obtain ⟨counted, length, hexadecimal, names⟩ := signed
  cases writes with
  | letter listed => exact codePointLetters_apart counted listed
  | codePoint again count hexadecimal names =>
    subst count
    cases others with
    | nil => exact absurd again (by simp [codePointLetters])
    | cons e others =>
      obtain ⟨rfl, -⟩ := List.cons.inj same
      exact absurd (hexadecimal '+' (by simp)) (by decide)

/-- Where nothing is written no escape starts. -/
theorem noWrites_of_escaped? {letter : Char} {rest : Text} (nothing : escaped? letter rest = none)
    (digits behind : Text) (c : Char) (same : rest = digits ++ behind) : ¬ Writes letter digits c := by
  intro writes
  rw [same, writes.escaped?] at nothing
  cases nothing

/-! ### The decoder -/

section Decodes
variable {c letter : Char} {rest meaning : Text}

/-- The empty source decodes to nothing. -/
theorem decodes_nil_iff : Decodes [] meaning ↔ meaning = [] := by
  constructor
  · rintro ⟨⟩
    rfl
  · rintro rfl
    exact .nil

/-- A single character stays as it is, a backslash too. -/
theorem decodes_singleton_iff : Decodes [c] meaning ↔ meaning = [c] := by
  constructor
  · intro decodes
    cases decodes with
    | char plain more => rw [decodes_nil_iff.mp more]
    | last => rfl
  · rintro rfl
    by_cases backslash : c = '\\'
    · exact backslash ▸ .last
    · exact .char backslash .nil

/-- So does any character but a backslash. -/
theorem decodes_char_iff (plain : c ≠ '\\') :
    Decodes (c :: rest) meaning ↔ ∃ others, meaning = c :: others ∧ Decodes rest others := by
  constructor
  · intro decodes
    cases decodes with
    | char _ more => exact ⟨_, rfl, more⟩
    | escape | kept | last => exact absurd rfl plain
  · rintro ⟨others, rfl, more⟩
    exact .char plain more

/-- An escape decodes to the character that it writes. -/
theorem decodes_escape_iff {digits : Text} (writes : Writes letter digits c) :
    Decodes ('\\' :: letter :: (digits ++ rest)) meaning
      ↔ ∃ others, meaning = c :: others ∧ Decodes rest others := by
  constructor
  · intro decodes
    generalize same : '\\' :: letter :: (digits ++ rest) = source at decodes
    -- The same source is not decoded in another way, as no two escapes start alike.
    cases decodes with
    | nil | last => cases same
    | char plain more => exact absurd (List.cons.inj same).1.symm plain
    | escape again more =>
      obtain ⟨rfl, follows⟩ := List.cons.inj (List.cons.inj same).2
      obtain ⟨rfl, -, rfl⟩ := writes.unique again follows
      exact ⟨_, rfl, more⟩
    | kept nothing more =>
      obtain ⟨rfl, rfl⟩ := List.cons.inj (List.cons.inj same).2
      exact absurd writes (nothing _ _ _ rfl)
  · rintro ⟨others, rfl, more⟩
    exact .escape writes more

/-- A backslash that starts no escape is kept with the character behind it. -/
theorem decodes_kept_iff
    (nothing : ∀ digits behind c, rest = digits ++ behind → ¬ Writes letter digits c) :
    Decodes ('\\' :: letter :: rest) meaning
      ↔ ∃ others, meaning = '\\' :: letter :: others ∧ Decodes rest others := by
  constructor
  · intro decodes
    generalize same : '\\' :: letter :: rest = source at decodes
    cases decodes with
    | nil | last => cases same
    | char plain more => exact absurd (List.cons.inj same).1.symm plain
    | escape writes more =>
      obtain ⟨rfl, rfl⟩ := List.cons.inj (List.cons.inj same).2
      exact absurd writes (nothing _ _ _ rfl)
    | kept _ more =>
      obtain ⟨rfl, rfl⟩ := List.cons.inj (List.cons.inj same).2
      exact ⟨_, rfl, more⟩
  · rintro ⟨others, rfl, more⟩
    exact .kept nothing more

end Decodes

/-- A code point with a plus sign is kept. -/
theorem WritesSigned.kept {letter c : Char} {digits rest meaning : Text}
    (signed : WritesSigned letter digits c) (decodes : Decodes (digits ++ rest) meaning) :
    ∃ others, meaning = digits ++ others ∧ Decodes rest others := by
  have plain : ∀ d ∈ digits, d ≠ '\\' := by
    obtain ⟨-, -, hexadecimal, -⟩ := signed
    refine List.forall_mem_cons.mpr ⟨by decide, fun d mem same => ?_⟩
    exact absurd (hexadecimal d mem) (same ▸ by decide)
  clear signed
  induction digits generalizing meaning with
  | nil => exact ⟨meaning, rfl, decodes⟩
  | cons d digits ih =>
    obtain ⟨first, plain⟩ := List.forall_mem_cons.mp plain
    obtain ⟨others, rfl, more⟩ := (decodes_char_iff first).mp decodes
    obtain ⟨others, rfl, behind⟩ := ih more plain
    exact ⟨others, rfl, behind⟩

section MeetsSign
variable {c letter : Char} {rest : Text}

/-- No sign is met in a plain character. -/
theorem meetsSign_char_iff (plain : c ≠ '\\') : MeetsSign (c :: rest) ↔ MeetsSign rest := by
  refine ⟨fun meets => ?_, .char plain⟩
  cases meets with
  | char _ more => exact more
  | here | escape | kept => exact absurd rfl plain

/-- None is met in an escape of the list. -/
theorem meetsSign_escape_iff {digits : Text} (writes : Writes letter digits c) :
    MeetsSign ('\\' :: letter :: (digits ++ rest)) ↔ MeetsSign rest := by
  refine ⟨fun meets => ?_, .escape writes⟩
  generalize same : '\\' :: letter :: (digits ++ rest) = source at meets
  cases meets with
  | char plain more => exact absurd (List.cons.inj same).1.symm plain
  | here signed =>
    obtain ⟨rfl, follows⟩ := List.cons.inj (List.cons.inj same).2
    exact absurd writes (signed.not_writes follows.symm)
  | escape again more =>
    obtain ⟨rfl, follows⟩ := List.cons.inj (List.cons.inj same).2
    obtain ⟨-, -, rfl⟩ := writes.unique again follows
    exact more
  | kept nothing more =>
    obtain ⟨rfl, rfl⟩ := List.cons.inj (List.cons.inj same).2
    exact absurd writes (nothing _ _ _ rfl)

/-- None is met in what is kept as it is. -/
theorem meetsSign_kept_iff (nothing : escaped? letter rest = none) :
    MeetsSign ('\\' :: letter :: rest) ↔ MeetsSign rest := by
  refine ⟨fun meets => ?_, .kept (noWrites_of_escaped? nothing)⟩
  generalize same : '\\' :: letter :: rest = source at meets
  cases meets with
  | char plain more => exact absurd (List.cons.inj same).1.symm plain
  | here signed =>
    obtain ⟨rfl, rfl⟩ := List.cons.inj (List.cons.inj same).2
    rw [signed.escaped?] at nothing
    cases nothing
  | escape writes more =>
    obtain ⟨rfl, rfl⟩ := List.cons.inj (List.cons.inj same).2
    exact absurd writes (noWrites_of_escaped? nothing _ _ _ rfl)
  | kept _ more =>
    obtain ⟨-, rfl⟩ := List.cons.inj (List.cons.inj same).2
    exact more

/-- None is met in the empty source. -/
theorem not_meetsSign_nil : ¬ MeetsSign [] := nofun

/-- None is met in a single character. -/
theorem not_meetsSign_singleton : ¬ MeetsSign [c] := by
  rintro ⟨⟩
  next more => exact not_meetsSign_nil more

end MeetsSign

/-- A text is unescaped as it is decoded, unless the scan meets a sign: what is decoded is longer
then. -/
theorem decodes_cases {text meaning : Text} (decodes : Decodes text meaning) :
    (¬ MeetsSign text ∧ unescapePlain text = meaning)
      ∨ (MeetsSign text ∧ (unescapePlain text).length < meaning.length) := by
  fun_induction unescapePlain text generalizing meaning with
  | case1 => exact .inl ⟨not_meetsSign_nil, (decodes_nil_iff.mp decodes).symm⟩
  | case2 c => exact .inl ⟨not_meetsSign_singleton, (decodes_singleton_iff.mp decodes).symm⟩
  | case3 letter rest d used found ih =>
    obtain ⟨digits, behind, rfl, rfl, writes | signed⟩ := escaped?_eq_some_iff.mp found
    · obtain ⟨others, rfl, more⟩ := (decodes_escape_iff writes).mp decodes
      rw [List.drop_left] at ih ⊢
      rw [meetsSign_escape_iff writes]
      rcases ih more with ⟨noSign, rfl⟩ | ⟨sign, shorter⟩
      · exact .inl ⟨noSign, rfl⟩
      · exact .inr ⟨sign, by simpa using shorter⟩
    · -- The decoder keeps what is unescaped as one character.
      have nothing : ∀ others after e, digits ++ behind = others ++ after → ¬ Writes letter others e :=
        fun _ _ _ same => signed.not_writes same
      obtain ⟨kept, rfl, more⟩ := (decodes_kept_iff nothing).mp decodes
      obtain ⟨after, rfl, rest⟩ := signed.kept more
      rw [List.drop_left] at ih ⊢
      refine .inr ⟨.here signed, ?_⟩
      have shorter : (unescapePlain behind).length ≤ after.length := by
        rcases ih rest with ⟨-, rfl⟩ | ⟨-, shorter⟩ <;> omega
      simp only [List.length_cons, List.length_append]
      omega
  | case4 letter rest nothing ih =>
    obtain ⟨others, rfl, more⟩ := (decodes_kept_iff (noWrites_of_escaped? nothing)).mp decodes
    rw [meetsSign_kept_iff nothing]
    rcases ih more with ⟨noSign, rfl⟩ | ⟨sign, shorter⟩
    · exact .inl ⟨noSign, rfl⟩
    · exact .inr ⟨sign, by simpa using shorter⟩
  | case5 c letter rest plain ih =>
    obtain ⟨others, rfl, more⟩ := (decodes_char_iff plain).mp decodes
    rw [meetsSign_char_iff plain]
    rcases ih more with ⟨noSign, rfl⟩ | ⟨sign, shorter⟩
    · exact .inl ⟨noSign, rfl⟩
    · exact .inr ⟨sign, by simpa using shorter⟩

/-- Every text has a meaning. -/
theorem exists_decodes (text : Text) : ∃ meaning, Decodes text meaning := by
  match text with
  | [] => exact ⟨[], .nil⟩
  | [c] => exact ⟨[c], decodes_singleton_iff.mpr rfl⟩
  | c :: letter :: rest =>
    by_cases backslash : c = '\\'
    · subst backslash
      -- Either an escape starts there or the backslash is kept.
      by_cases starts : ∃ digits behind d, rest = digits ++ behind ∧ Writes letter digits d
      · obtain ⟨digits, behind, d, rfl, writes⟩ := starts
        obtain ⟨meaning, more⟩ := exists_decodes behind
        exact ⟨_, .escape writes more⟩
      · obtain ⟨meaning, more⟩ := exists_decodes rest
        exact ⟨_, .kept (fun digits behind d same writes => starts ⟨_, _, _, same, writes⟩) more⟩
    · obtain ⟨meaning, more⟩ := exists_decodes (letter :: rest)
      exact ⟨_, .char backslash more⟩
termination_by text.length

/-! ### Whole sources -/

/-- The decoder leaves template sequences as they are. -/
inductive DecodesPieces : List Segment → Text → Prop
  | nil : DecodesPieces [] []
  | plain {text meaning others : Text} {pieces : List Segment} (decodes : Decodes text meaning)
    (more : DecodesPieces pieces others) : DecodesPieces (.plain text :: pieces) (meaning ++ others)
  | template {text others : Text} {pieces : List Segment} (more : DecodesPieces pieces others) :
    DecodesPieces (.template text :: pieces) (text ++ others)

/-- Every source decodes to something, segment by segment. -/
theorem exists_decodesPieces (pieces : List Segment) : ∃ meaning, DecodesPieces pieces meaning := by
  induction pieces with
  | nil => exact ⟨[], .nil⟩
  | cons piece pieces ih =>
    obtain ⟨others, more⟩ := ih
    cases piece with
    | plain text =>
      obtain ⟨meaning, decodes⟩ := exists_decodes text
      exact ⟨_, .plain decodes more⟩
    | template text => exact ⟨_, .template more⟩

/-- Pieces are unescaped as they are decoded, unless the scan meets a sign in one of them. -/
theorem decodesPieces_cases {pieces : List Segment} {meaning : Text}
    (decodes : DecodesPieces pieces meaning) :
    ((∀ piece, .plain piece ∈ pieces → ¬ MeetsSign piece)
        ∧ pieces.flatMap unescapeSegment = meaning)
      ∨ (∃ piece, .plain piece ∈ pieces ∧ MeetsSign piece)
        ∧ (pieces.flatMap unescapeSegment).length < meaning.length := by
  induction decodes with
  | nil => exact .inl ⟨nofun, rfl⟩
  | @plain text meaning others pieces decodes more ih =>
    rw [List.flatMap_cons, unescapeSegment, List.length_append, List.length_append]
    -- A sign that is met in one piece makes the whole shorter, and no piece makes it longer.
    rcases decodes_cases decodes with ⟨noSign, rfl⟩ | ⟨sign, shorter⟩
    · rcases ih with ⟨noSigns, rfl⟩ | ⟨⟨piece, mem, sign⟩, shorter⟩
      · refine .inl ⟨fun piece mem => ?_, rfl⟩
        rcases List.mem_cons.mp mem with same | mem
        · cases same
          exact noSign
        · exact noSigns piece mem
      · exact .inr ⟨⟨piece, List.mem_cons_of_mem _ mem, sign⟩, by omega⟩
    · refine .inr ⟨⟨text, List.mem_cons_self, sign⟩, ?_⟩
      rcases ih with ⟨-, rfl⟩ | ⟨-, shorter⟩ <;> omega
  | @template text others pieces more ih =>
    rw [List.flatMap_cons, unescapeSegment, List.length_append, List.length_append]
    rcases ih with ⟨noSigns, rfl⟩ | ⟨⟨piece, mem, sign⟩, shorter⟩
    · exact .inl ⟨fun piece mem => noSigns piece (by simpa using mem), rfl⟩
    · exact .inr ⟨⟨piece, List.mem_cons_of_mem _ mem, sign⟩, by omega⟩

/-- A source means what the decoder makes of it, exactly when the scan meets no code point with a plus
sign outside its template sequences. -/
theorem unescape_decodes_iff (source : Text) :
    (∀ meaning, DecodesPieces (segments true source) meaning ↔ unescape source = meaning)
      ↔ ∀ piece, .plain piece ∈ segments true source → ¬ MeetsSign piece := by
  rw [unescape_eq_flatMap]
  constructor
  · intro same
    rcases decodesPieces_cases ((same _).mpr rfl) with ⟨noSigns, -⟩ | ⟨-, shorter⟩
    · exact noSigns
    · exact absurd shorter (Nat.lt_irrefl _)
  · intro noSigns
    -- Whatever the pieces are decoded to is what they are unescaped to.
    have unique {meaning : Text} (decodes : DecodesPieces (segments true source) meaning) :
        (segments true source).flatMap unescapeSegment = meaning := by
      rcases decodesPieces_cases decodes with ⟨-, same⟩ | ⟨⟨piece, mem, sign⟩, -⟩
      · exact same
      · exact absurd sign (noSigns piece mem)
    intro meaning
    refine ⟨unique, ?_⟩
    rintro rfl
    obtain ⟨meaning, decodes⟩ := exists_decodesPieces (segments true source)
    rwa [unique decodes]

/-- The sign and three digits are read as a code point, which the reference keeps. -/
theorem unescape_plus :
    unescape "\\u+041".toList = "A".toList
      ∧ DecodesPieces (segments true "\\u+041".toList) "\\u+041".toList := by
  have unescaped : unescape "\\u+041".toList = "A".toList := by cbv
  have pieces : segments true "\\u+041".toList = [.plain ('\\' :: 'u' :: "+041".toList)] := by cbv
  have signed : WritesSigned 'u' "+041".toList 'A' :=
    .intro (by decide : ('u', 4) ∈ codePointLetters) rfl (by decide) (by decide)
  have plain : Decodes "+041".toList "+041".toList :=
    .char (by decide) (.char (by decide) (.char (by decide) (.char (by decide) .nil)))
  have kept : Decodes ('\\' :: 'u' :: "+041".toList) ('\\' :: 'u' :: "+041".toList) := by
    refine .kept (fun digits behind c same => ?_) plain
    rw [← List.append_nil "+041".toList] at same
    exact signed.not_writes same
  have whole := DecodesPieces.plain kept .nil
  rw [List.append_nil] at whole
  exact ⟨unescaped, pieces ▸ whole⟩

end Text

end HclSyntax
