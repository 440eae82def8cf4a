import HclSyntax.Proofs.LineBreak.Stranded

/-!
# `HclSyntax.Proofs.LineBreak.Stuck`: where an expression gets stuck

An expression that cannot go on may still have taken something: the name of a call as a text, when
the arguments cannot be read (`StuckTerm`), or all that stands before an operator, when the term
behind it is stranded (`Stuck`). What it leaves cannot be read as anything else either: no operator
goes on with it, and it starts no element and no declaration, no comma and no closing bracket
(`Stuck.mismatches_element`, `Stuck.refuses_declaration`, `Stuck.starts`).
-/

set_option autoImplicit false

namespace HclSyntax.Grammar

open Rule

/-! ### Symbols -/

/-- The characters of operators that start neither a sign nor a term. -/
def bareSymbols : List Char :=
  ['>', '<', '=', '&', '|', '/', '*', '%', '+', '?', ':']

/-- A heredoc starts with two angle brackets. -/
theorem mismatches_heredocHead {text : Text} (h : ¬ "<<".toList <+: text) :
    heredocHead.Mismatches text :=
  Mismatches.bind (mismatches_word_iff.mpr h) _

/-- No term starts with such a character, but a heredoc may. -/
theorem mismatches_unaryOperand_symbol {c : Char} {rest : Text} (listed : c ∈ bareSymbols)
    (noHeredoc : heredocHead.Mismatches (c :: rest)) :
    (unaryOperand inner).Mismatches (c :: rest) := by
  have apart : ∀ c ∈ bareSymbols, (isTextChar c && c != '.' && c != '*') = false
      ∧ isAlphabetic c = false ∧ (c.isDigit || c == '-') = false ∧ c ∉ ['(', '{', '[', '"']
      ∧ c ∉ ['!', '-'] := by
    decide
  obtain ⟨notText, notLetter, notDigit, notMark, notSign⟩ := apart c listed
  have noNumber : number.Mismatches (c :: rest) := mismatches_number ((Text.stops_cons ..).mpr notDigit)
  refine mismatches_unaryOperand_of ?_ (mismatches_signedOperand ?_)
  · exact mismatches_operand_of notText notLetter notMark ((noHeredoc.bind _).bind _) noNumber
  · rintro d same
    obtain rfl := Option.some.inj same
    exact notSign

/-! ### Behind a term -/

/-- What is left of a call whose arguments cannot be read, behind a name that was taken for a
text. -/
structure StuckTerm (rest : Text) : Prop where
  /-- White space behind the name stands on its line. -/
  inline : rest.trimInline = rest.trimStart
  start : (∃ more, rest.trimStart = '(' :: more ∧ Stranded ('(' :: more))
    ∨ ∃ more, rest.trimStart = ':' :: ':' :: more

/-- No operator goes on with it. -/
theorem StuckTerm.mismatches_operation {rest : Text} (h : StuckTerm rest) (multiline : Bool) :
    (operation inner multiline).Mismatches rest := by
  have skips : skip multiline rest = rest.trimStart := by
    cases multiline
    · exact h.inline
    · rfl
  rw [Mismatches, operation_apply, skips]
  rcases h.start with ⟨more, start, -⟩ | ⟨more, start⟩ <;> rw [start]
  · exact (mismatches_operator ((Text.stops_cons ..).mpr (by decide))).bind _
  · -- The first colon is an operator, but no term starts with the second.
    have colon : operator (':' :: ':' :: more) = .matched [':'] (':' :: more) := rfl
    have notSpace : isWhitespace ':' = false := by decide
    refine Mismatches.behind colon (Mismatches.behind (whitespace_apply _) (Mismatches.bind ?_ _))
    rw [Text.trimStart_cons notSpace]
    refine mismatches_unaryOperand_symbol (by decide) (mismatches_heredocHead ?_)
    rintro ⟨tail, same⟩
    cases same

/-- No accessor follows it. -/
theorem StuckTerm.mismatches_accessor {rest : Text} (h : StuckTerm rest) :
    accessor.Mismatches rest := by
  have apart {c : Char} (notSpace : isWhitespace c = false) (notParen : c ≠ '(') (notColon : c ≠ ':') :
      rest.head? ≠ some c := by
    intro head
    obtain ⟨tail, rfl⟩ := List.head?_eq_some_iff.mp head
    have start := h.start
    rw [Text.trimStart_cons notSpace] at start
    rcases start with ⟨more, same, -⟩ | ⟨more, same⟩
    · exact notParen (List.cons.inj same).1
    · exact notColon (List.cons.inj same).1
  exact Grammar.mismatches_accessor (apart (by decide) (by decide) (by decide))
    (apart (by decide) (by decide) (by decide))

/-! ### Behind an expression -/

/-- What an expression leaves that cannot go on. -/
inductive Stuck : Text → Prop
  | stranded {text : Text} (h : Stranded text) : Stuck text
  | colons (rest : Text) : Stuck (':' :: ':' :: rest)
  | operator {text symbol behind : Text} (found : operator text = .matched symbol behind)
    (h : Stranded behind.trimStart) : Stuck text

/-- What is left of the call cannot go on. -/
theorem StuckTerm.stuck {rest : Text} (h : StuckTerm rest) : Stuck rest.trimStart := by
  rcases h.start with ⟨more, start, h⟩ | ⟨more, start⟩ <;> rw [start]
  · exact .stranded h
  · exact .colons more

/-- A third angle bracket is no marker. -/
theorem mismatches_heredocHead_of_stranded {rest : Text} (h : Stranded rest.trimStart) :
    heredocHead.Mismatches ('<' :: rest) := by
  by_cases head : rest.head? = some '<'
  · obtain ⟨tail, rfl⟩ := List.head?_eq_some_iff.mp head
    rw [Text.trimStart_cons (by decide)] at h
    obtain ⟨tail, rfl⟩ : ∃ more, tail = '<' :: more := by
      cases h with
      | bracket starts =>
        rcases starts with listed | ⟨-, third⟩
        · exact absurd listed (by decide)
        · exact List.head?_eq_some_iff.mp third
      | sign isSign => exact absurd isSign (by decide)
    have opens : word "<<".toList ('<' :: '<' :: '<' :: tail) = .matched "<<".toList ('<' :: tail) :=
      word_append "<<".toList ('<' :: tail)
    have noDash : optional (char '-') ('<' :: tail) = .matched none ('<' :: tail) :=
      optional_of_mismatches (mismatches_char_iff.mpr (by simp))
    exact Mismatches.behind opens (Mismatches.behind noDash
      (Mismatches.bind (mismatches_takeWhile1_iff.mpr ((Text.stops_cons ..).mpr (by decide))) _))
  · refine mismatches_heredocHead ?_
    rintro ⟨tail, same⟩
    exact head (by rw [← (List.cons.inj same).2]; rfl)

/-- Nothing but the symbol of an operator stands there: no term, with signs in front of it or
without, no name and no comment. -/
structure Unread (text : Text) : Prop where
  starts : ∃ c rest, text = c :: rest ∧ c ∈ '!' :: bareSymbols
  noTerm : (unaryOperand inner).Mismatches text
  noComment : comment.Mismatches text

/-- Nothing is read at the symbol of an operator, unless it starts a heredoc or a comment. -/
theorem unread_symbol {c : Char} {rest : Text} (listed : c ∈ bareSymbols)
    (noHeredoc : heredocHead.Mismatches (c :: rest)) (noSlash : c ≠ '/') : Unread (c :: rest) where
  starts := ⟨c, rest, rfl, List.mem_cons_of_mem _ listed⟩
  noTerm := mismatches_unaryOperand_symbol listed noHeredoc
  noComment := by
    have noHash : ∀ c ∈ bareSymbols, c ≠ '#' := by decide
    exact mismatches_comment (by simpa using noHash c listed) (by simpa using noSlash)

/-- A slash that is an operator starts no comment. -/
theorem mismatches_comment_of_operator {rest symbol behind : Text}
    (h : operator ('/' :: rest) = .matched symbol behind) : comment.Mismatches ('/' :: rest) := by
  have marker {c : Char} (listed : c ∈ ['/', '*']) : (word ['/', c]).Mismatches ('/' :: rest) := by
    rw [mismatches_word_iff]
    rintro ⟨tail, same⟩
    obtain rfl : c :: tail = rest := (List.cons.inj same).2
    exact not_mismatches_of_matched h (mismatches_operator_slash listed tail)
  refine mismatches_orElse_iff.mpr ⟨Mismatches.bind (mismatches_orElse_iff.mpr ⟨?_, ?_⟩) _, ?_⟩
  · exact Mismatches.bind (mismatches_word_iff.mpr fun ⟨_, same⟩ =>
      absurd (List.cons.inj same).1 (by decide)) _
  · exact (marker (by decide)).bind _
  · exact (marker (by decide)).bind _

/-- A stuck text starts with something stranded, or with a symbol behind which nothing is read. -/
theorem Stuck.stranded_or_unread {text : Text} (h : Stuck text) : Stranded text ∨ Unread text := by
  have noHeredoc {c : Char} (apart : c ≠ '<') (rest : Text) : heredocHead.Mismatches (c :: rest) := by
    refine mismatches_heredocHead ?_
    rintro ⟨tail, same⟩
    exact apart (List.cons.inj same).1.symm
  cases h with
  | stranded h => exact .inl h
  | colons rest => exact .inr (unread_symbol (by decide) (noHeredoc (by decide) _) (by decide))
  | @operator _ symbol behind found h =>
    obtain ⟨rfl, listed⟩ := operator_matched found
    have plain : ∀ s ∈ operatorSymbols, s ∈ [['<', '='], ['!', '='], ['-'], ['/'], ['<']]
        ∨ s.head?.any (fun c => bareSymbols.contains c && c != '<' && c != '/') = true := by decide
    rcases plain symbol listed with special | plain
    · simp only [List.mem_cons, List.not_mem_nil, or_false] at special
      rcases special with rfl | rfl | rfl | rfl | rfl
      · refine .inr (unread_symbol (by decide) (mismatches_heredocHead ?_) (by decide))
        rintro ⟨tail, same⟩
        exact absurd (List.cons.inj (List.cons.inj same).2).1 (by decide)
      · -- A negation may start a term, but no term starts with the equals sign behind it.
        refine .inr ⟨⟨'!', _, rfl, List.mem_cons_self⟩, ?_,
          mismatches_comment (by simp) (by simp)⟩
        refine mismatches_unaryOperand_of (mismatches_operand (by decide) (by decide)
          (mismatches_number ((Text.stops_cons ..).mpr (by decide))))
          (mismatches_signedOperand_cons (by decide) ?_)
        have visible : isWhitespace '=' = false := by decide
        show (unaryOperand inner).Mismatches (Text.trimStart ('=' :: behind))
        rw [Text.trimStart_cons visible]
        exact mismatches_unaryOperand_symbol (by decide) (noHeredoc (by decide) _)
      · exact .inl (.sign (by decide) h)
      · refine .inr ⟨⟨'/', _, rfl, by decide⟩,
          mismatches_unaryOperand_symbol (by decide) (noHeredoc (by decide) _), ?_⟩
        exact mismatches_comment_of_operator found
      · exact .inr (unread_symbol (by decide) (mismatches_heredocHead_of_stranded h) (by decide))
    · cases symbol with
      | nil => cases plain
      | cons c tail =>
        simp only [List.head?_cons, Option.any_some, Bool.and_eq_true, List.contains_iff_mem,
          bne_iff_ne] at plain
        obtain ⟨⟨bare, noBracket⟩, noSlash⟩ := plain
        exact .inr (unread_symbol bare (noHeredoc noBracket _) noSlash)

/-! ### What is not read there -/

/-- No value starts there. -/
theorem Unread.mismatches_value {text : Text} (h : Unread text) : value.Mismatches text := by
  obtain ⟨place, gaveUp⟩ : (valueOver inner).Mismatches text := (h.noTerm.bind _).bind _
  exact ⟨place, (value_eq text).trans gaveUp⟩

namespace Stuck

variable {text : Text} (h : Stuck text)

include h

/-- The first character of what is left. -/
theorem starts : ∃ c rest, text = c :: rest ∧ c ∈ strandedStarts ++ bareSymbols := by
  rcases h.stranded_or_unread with h | ⟨⟨c, rest, rfl, listed⟩, -, -⟩
  · obtain ⟨c, rest, rfl, listed⟩ := h.starts
    exact ⟨c, rest, rfl, List.mem_append_left _ listed⟩
  · have among : ∀ c ∈ '!' :: bareSymbols, c ∈ strandedStarts ++ bareSymbols := by decide
    exact ⟨c, rest, rfl, among c listed⟩

/-- It does not start with white space. -/
theorem trimStart : Text.trimStart text = text := by
  obtain ⟨c, rest, rfl, listed⟩ := h.starts
  have visible : ∀ c ∈ strandedStarts ++ bareSymbols, isWhitespace c = false := by decide
  exact Text.trimStart_cons (visible c listed) rest

/-- No element starts there. -/
theorem mismatches_element : (comment <|> inner.value).Mismatches text := by
  rcases h.stranded_or_unread with h | h
  · exact mismatches_orElse_iff.mpr ⟨h.mismatches_comment, h.mismatches_value⟩
  · exact mismatches_orElse_iff.mpr ⟨h.noComment, h.mismatches_value⟩

/-- No declaration is read there. -/
theorem refuses_declaration : (declaration inner).Refuses text := by
  rcases h.stranded_or_unread with h | ⟨⟨c, rest, rfl, listed⟩, -, noComment⟩
  · exact h.declaration
  · have noName : ∀ c ∈ '!' :: bareSymbols, startsName c = false := by decide
    exact (mismatches_declaration_of ((Text.stops_cons ..).mpr (noName c listed)) noComment
      inner).refuses

end Stuck

/-- A text that got stuck behind white space goes on with no comma and no other separator. -/
theorem optional_of_stuck {text : Text} {accepts : Char → Bool} (h : Stuck text.trimStart)
    (apart : ∀ c ∈ strandedStarts ++ bareSymbols, accepts c = false) :
    optional (whitespace >>= fun _ => charWhere accepts) text = .matched none text := by
  refine optional_of_mismatches (Mismatches.behind (whitespace_apply text)
    (mismatches_charWhere_iff.mpr ?_))
  obtain ⟨c, rest, start, listed⟩ := h.starts
  exact start ▸ (Text.stops_cons ..).mpr (apart c listed)

end HclSyntax.Grammar
