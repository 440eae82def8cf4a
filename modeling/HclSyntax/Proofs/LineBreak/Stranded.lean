import HclSyntax.Proofs.Grammar.Fault
import HclSyntax.Proofs.Grammar.Start
import HclSyntax.Proofs.LineBreak.Fence

/-!
# `HclSyntax.Proofs.LineBreak.Stranded`: where nothing more is read

A bracket whose contents cannot be read, or the first line of a heredoc that never ends its line,
leaves nothing else to try: no other term starts there, with signs in front of it or without, and no
name does (`Stranded`). So no value is read on such a text and no declaration
(`Stranded.mismatches_value`, `Stranded.declaration`).

Where a name and an equals sign stand in front of it (`AssignsStranded`), the forms of a declaration
that come without an expression are not read either.
-/

set_option autoImplicit false

namespace HclSyntax.Grammar

open Rule

/-! ### Signs -/

/-- A sign starts no term if none starts behind it. -/
theorem mismatches_signedOperand_cons {rules : Inner} {c : Char} {rest : Text} (isSign : c ∈ ['!', '-'])
    (h : (unaryOperand rules).Mismatches rest.trimStart) :
    (signedOperand rules).Mismatches (c :: rest) :=
  Mismatches.behind (oneOf_matched_iff.mpr ⟨rfl, isSign⟩)
    (Mismatches.behind (whitespace_apply rest) (h.bind _))

/-! ### Stranded texts -/

/-- The characters that a stranded text starts with. -/
def strandedStarts : List Char :=
  ['(', '[', '{', '<', '!', '-']

/-- No term can be read, no name and no block body. -/
inductive Stranded : Text → Prop
  | bracket {c : Char} {rest : Text}
    (starts : c ∈ ['(', '[', '{'] ∨ c = '<' ∧ rest.head? = some '<')
    (noTerm : (operand inner).Mismatches (c :: rest)) (noName : identifier.Mismatches (c :: rest))
    (noBody : (blockBody inner).Refuses (c :: rest)) : Stranded (c :: rest)
  | sign {c : Char} {rest : Text} (isSign : c ∈ ['!', '-'])
    (behind : Stranded (Text.trimStart rest)) : Stranded (c :: rest)

namespace Stranded

variable {text : Text}

/-- The first character of a stranded text. -/
theorem starts (h : Stranded text) : ∃ c rest, text = c :: rest ∧ c ∈ strandedStarts := by
  cases h with
  | @bracket c rest starts =>
    refine ⟨c, rest, rfl, ?_⟩
    rcases starts with listed | ⟨rfl, -⟩
    · exact (by decide : ∀ c ∈ ['(', '[', '{'], c ∈ strandedStarts) c listed
    · decide
  | @sign c rest isSign =>
    exact ⟨c, rest, rfl, (by decide : ∀ c ∈ ['!', '-'], c ∈ strandedStarts) c isSign⟩

/-- A run of other characters ends in front of it. -/
theorem stops (h : Stranded text) {accepts : Char → Bool}
    (apart : ∀ c ∈ strandedStarts, accepts c = false) : Text.Stops accepts text := by
  obtain ⟨c, rest, rfl, listed⟩ := h.starts
  exact (Text.stops_cons ..).mpr (apart c listed)

/-- It starts with no other character. -/
theorem head_ne (h : Stranded text) {c : Char} (apart : c ∉ strandedStarts) :
    text.head? ≠ some c := by
  obtain ⟨d, rest, rfl, listed⟩ := h.starts
  rintro same
  obtain rfl := Option.some.inj same
  exact apart listed

/-- It does not start with white space. -/
theorem trimStart (h : Stranded text) : Text.trimStart text = text :=
  Text.trimStart_of_stops (h.stops (by decide))

/-- A sign makes no number of it. -/
theorem mismatches_number (h : Stranded text) : number.Mismatches text := by
  induction h with
  | @bracket c rest starts =>
    have apart : ∀ c ∈ ['(', '[', '{', '<'], (c.isDigit || c == '-') = false := by decide
    refine Grammar.mismatches_number ((Text.stops_cons ..).mpr (apart c ?_))
    rcases starts with listed | ⟨rfl, -⟩
    · exact (by decide : ∀ c ∈ ['(', '[', '{'], c ∈ ['(', '[', '{', '<']) c listed
    · decide
  | @sign c rest isSign behind ih =>
    simp only [List.mem_cons, List.not_mem_nil, or_false] at isSign
    rcases isSign with rfl | rfl
    · exact Grammar.mismatches_number ((Text.stops_cons ..).mpr (by decide))
    · -- Behind the minus stands white space, or what is stranded there.
      refine mismatches_number_sign (.inr ?_)
      by_cases space : Text.Stops isWhitespace rest
      · rwa [Text.trimStart_of_stops space] at ih
      · cases rest with
        | nil => exact absurd (Text.stops_nil _) space
        | cons d rest =>
          have isSpace : isWhitespace d = true := by simpa using space
          refine Grammar.mismatches_number ((Text.stops_cons ..).mpr ?_)
          rw [← Bool.not_eq_true]
          intro number
          simp only [Bool.or_eq_true, beq_iff_eq] at number
          rcases number with digit | rfl
          · simp [isWhitespace_of_isAlphanumeric (isAlphanumeric_of_isDigit digit)] at isSpace
          · cases isSpace

/-- No term starts there, whatever signs are taken. -/
theorem mismatches_unaryOperand (h : Stranded text) : (unaryOperand inner).Mismatches text := by
  induction h with
  | @bracket c rest starts noTerm =>
    refine mismatches_unaryOperand_of noTerm (mismatches_signedOperand ?_)
    have apart : ∀ c ∈ ['(', '[', '{', '<'], c ∉ ['!', '-'] := by decide
    rintro d same
    obtain rfl := Option.some.inj same
    refine apart c ?_
    rcases starts with listed | ⟨rfl, -⟩
    · exact (by decide : ∀ c ∈ ['(', '[', '{'], c ∈ ['(', '[', '{', '<']) c listed
    · decide
  | @sign c rest isSign behind ih =>
    have apart : ∀ c ∈ ['!', '-'], isTextChar c = false ∧ c ∉ termMarks.take 5 := by decide
    exact mismatches_unaryOperand_of (mismatches_operand (apart c isSign).1 (apart c isSign).2
      (mismatches_number (.sign isSign behind))) (mismatches_signedOperand_cons isSign ih)

/-- No value starts there. -/
theorem mismatches_value (h : Stranded text) : value.Mismatches text := by
  obtain ⟨place, gaveUp⟩ : (valueOver inner).Mismatches text :=
    Mismatches.bind (Mismatches.bind h.mismatches_unaryOperand _) _
  exact ⟨place, (value_eq text).trans gaveUp⟩

/-- No comment starts there. -/
theorem mismatches_comment (h : Stranded text) : comment.Mismatches text :=
  Grammar.mismatches_comment (h.head_ne (by decide)) (h.head_ne (by decide))

/-! ### Names on stranded texts -/

/-- A name takes signs only, and what is behind them is stranded again. -/
theorem identifier {name rest : Text} (h : Stranded text)
    (taken : Grammar.identifier text = .matched name rest) : Stranded rest.trimStart := by
  induction h generalizing name with
  | bracket _ _ noName => exact absurd noName (not_mismatches_of_matched taken)
  | @sign c more isSign behind ih =>
    simp only [List.mem_cons, List.not_mem_nil, or_false] at isSign
    rcases isSign with rfl | rfl
    · exact absurd (mismatches_identifier ((Text.stops_cons ..).mpr (by decide)))
        (not_mismatches_of_matched taken)
    · rcases orElse_matched_iff.mp taken with run | ⟨-, parenthesized⟩
      · obtain ⟨same, nonempty, all, stops⟩ := takeWhile1_matched_iff.mp run
        obtain ⟨d, signs, rfl⟩ := List.exists_cons_of_ne_nil nonempty
        obtain ⟨rfl, rfl⟩ := List.cons.inj same
        cases signs with
        | nil => exact behind
        | cons e signs =>
          -- The name goes on with the next sign, which is stranded as well.
          have nameChar : isNameChar e = true := all e (by simp)
          have start : Text.trimStart (e :: signs ++ rest) = e :: signs ++ rest :=
            Text.trimStart_cons (isWhitespace_of_isNameChar nameChar) _
          have further : Grammar.identifier (e :: signs ++ rest) = .matched (e :: signs) rest :=
            orElse_of_matched (takeWhile1_matched_iff.mpr ⟨rfl, List.cons_ne_nil e signs,
              fun c hc => all c (List.mem_cons_of_mem _ hc), stops⟩) _
          exact ih (start ▸ further)
      · exact absurd (Mismatches.bind (mismatches_char_iff.mpr (by simp)) _)
          (not_mismatches_of_matched parenthesized)

/-- No quoted text starts there. -/
theorem quotedString (h : Stranded text) : Grammar.quotedString.Mismatches text :=
  mismatches_quotedString_iff.mpr (h.head_ne (by decide))

/-- A label takes signs only, as a name does. -/
theorem label {found rest : Text} (h : Stranded text)
    (taken : Grammar.label text = .matched found rest) : Stranded rest.trimStart := by
  rw [Grammar.label, orElse_of_mismatches h.quotedString] at taken
  exact h.identifier taken

/-- The name of a property takes signs only. -/
theorem propertyName {name : Name} {rest : Text} (h : Stranded text)
    (taken : Grammar.propertyName text = .matched name rest) : Stranded rest.trimStart := by
  rcases orElse_matched_iff.mp taken with bare | ⟨-, quoted⟩
  · simp only [bind_matched_iff, pure_matched_iff] at bare
    obtain ⟨found, _, found, -, rfl⟩ := bare
    exact h.identifier found
  · exact absurd (h.quotedString.bind _) (not_mismatches_of_matched quoted)

/-- No keyword starts there. -/
theorem keyword (h : Stranded text) {word : Text}
    (apart : word.head?.any (fun c => !strandedStarts.contains c) = true) :
    (Rule.keyword word).Mismatches text := by
  refine mismatches_keyword ?_
  rintro ⟨rest, rfl⟩
  cases word with
  | nil => cases apart
  | cons c word => exact h.head_ne (by simpa using apart) rfl

/-- The name of a block takes signs only. -/
theorem blockName {found : Bool × Name} {rest : Text} (h : Stranded text)
    (taken : Grammar.blockName text = .matched found rest) : Stranded rest.trimStart := by
  rcases orElse_matched_iff.mp taken with dynamic | ⟨-, plain⟩
  · exact absurd ((h.keyword (by decide)).bind _) (not_mismatches_of_matched dynamic)
  · simp only [bind_matched_iff, pure_matched_iff] at plain
    obtain ⟨name, _, found, -, rfl⟩ := plain
    exact h.propertyName found

/-- No equals sign or colon stands there, behind white space or not. -/
theorem equals {rest : Text} (h : Stranded rest.trimStart) : Grammar.equals.Mismatches rest := by
  have apart {c : Char} (notStart : c ∉ strandedStarts) (notSpace : isWhitespace c = false) :
      (char c).Mismatches rest.trimInline :=
    mismatches_char_iff.mpr fun head =>
      h.head_ne notStart (Text.head?_trimStart_of_trimInline head notSpace)
  refine Mismatches.behind (inlineWhitespace_apply rest) (Mismatches.bind (mismatches_orElse_iff.mpr
    ⟨(apart ?_ ?_).bind _, (apart ?_ ?_).bind _⟩) _) <;> decide

/-- No block body is read there. -/
theorem blockBody {rest : Text} (h : Stranded rest.trimStart) :
    (Grammar.blockBody inner).Refuses rest := by
  -- White space in front of a body makes no difference.
  have skips : Grammar.blockBody inner rest = Grammar.blockBody inner rest.trimStart := by
    rw [blockBody_eq, bind_of_matched (whitespace_apply rest),
      bind_of_matched (whitespace_apply rest.trimStart),
      Text.trimStart_of_stops (Text.stops_trimStart rest)]
  intro found after taken
  rw [skips] at taken
  generalize rest.trimStart = start at h taken
  cases h with
  | bracket _ _ _ noBody => exact noBody found after taken
  | @sign c more isSign =>
    have notSpace : ∀ c ∈ ['!', '-'], isWhitespace c = false ∧ c ≠ '{' := by decide
    refine absurd (mismatches_blockBody ?_) (not_mismatches_of_matched taken)
    rw [Text.trimStart_cons (notSpace c isSign).1]
    simpa using (notSpace c isSign).2

/-- No terms are read there. -/
theorem expressionTerms (h : Stranded text) (multiline : Bool) :
    (Grammar.expressionTerms inner multiline).Mismatches text :=
  h.mismatches_unaryOperand.bind _

/-- No literal starts there. -/
theorem scalar (h : Stranded text) : Grammar.scalar.Mismatches text :=
  mismatches_scalar (h.head_ne (by decide)) h.mismatches_number
    (mismatches_boolean (h.stops (by decide)))

/-- No block follows the signs that a name may take, and no equals sign. -/
theorem declaration (h : Stranded text) : (Grammar.declaration inner).Refuses text := by
  have property {next : Name → Rule Node} : (Grammar.propertyName >>= fun name =>
      Grammar.equals >>= fun _ => next name).Refuses text :=
    Refuses.behind fun _ _ named => ((h.propertyName named).equals.bind _).refuses
  have noBlock {block : Bool × Name → Rule Node}
      (next : ∀ found rest, Stranded rest.trimStart → (block found).Refuses rest) :
      (Grammar.blockName >>= block).Refuses text :=
    Refuses.behind fun found rest named => next found rest (h.blockName named)
  have labelled {rest : Text} (h : Stranded rest.trimStart) {next : Text → Rule Node}
      (refuses : ∀ found rest, Stranded rest.trimStart → (next found).Refuses rest) :
      (whitespace >>= fun _ => Grammar.label >>= next).Refuses rest :=
    Refuses.behind fun _ _ space => Refuses.behind fun found rest named => by
      obtain rfl := whitespace_matched_iff.mp space
      exact refuses found rest (h.label named)
  have ends {rest : Text} (h : Stranded rest.trimStart) {next : List Node → Rule Node} :
      (Grammar.blockBody inner >>= next).Refuses rest := h.blockBody.bind next
  refine Refuses.orElse (noBlock fun _ _ h => ends h) (property.orElse (property.orElse
    (property.orElse (Refuses.orElse ?_ (Refuses.orElse ?_ (Refuses.orElse ?_ (property.orElse
      (property.orElse (property.orElse (property.orElse (property.orElse (Refuses.orElse ?_
        property))))))))))))
  · exact ((h.keyword (by decide)).bind _).refuses
  · refine noBlock fun found rest h => Refuses.behind fun sign behind optional => ?_
    -- There is no equals sign, so the label would come next.
    rcases optional_matched_iff.mp optional with ⟨_, -, assigns⟩ | ⟨-, -, rfl⟩
    · exact absurd h.equals (not_mismatches_of_matched assigns)
    · exact labelled h fun _ _ h => ends h
  · exact noBlock fun _ _ h => labelled h fun _ _ h => labelled h fun _ _ h => ends h
  · exact h.mismatches_comment.refuses

end Stranded

/-! ### Stranded values -/

/-- A keyword in front of white space is also a name. -/
theorem propertyName_of_keyword {text rest found word : Text} (nonempty : word ≠ [])
    (chars : ∀ c ∈ word, isNameChar c = true) (h : keyword word text = .matched found rest) :
    propertyName text = .matched (.bare word) rest := by
  obtain ⟨rfl, rfl, c, tail, rfl, space⟩ := keyword_matched_iff.mp h
  have stops : Text.Stops isNameChar (c :: tail) := (Text.stops_cons ..).mpr <| by
    rw [← Bool.not_eq_true]
    intro nameChar
    simp [isWhitespace_of_isNameChar nameChar] at space
  have isName : IsName (.bare found) := fun _ => .bare nonempty chars
  exact propertyName_source isName (fun quoted => nomatch quoted) stops

/-- In front of a value stands an equals sign or a colon, and no white space. -/
theorem equals_shape {text rest : Text} {value : Unit} (h : equals text = .matched value rest) :
    Text.Stops startsName text.trimStart ∧ Text.Stops isWhitespace rest := by
  have sign {c : Char} (head : text.trimInline.head? = some c) (notSpace : isWhitespace c = false)
      (noName : startsName c = false) : Text.Stops startsName text.trimStart := by
    intro d hd
    rw [Text.head?_trimStart_of_trimInline head notSpace] at hd
    rwa [← Option.some.inj hd]
  rw [equals, bind_of_matched (inlineWhitespace_apply text)] at h
  obtain ⟨_, behind, signed, space⟩ := bind_matched_iff.mp h
  obtain rfl := whitespace_matched_iff.mp space
  refine ⟨?_, Text.stops_trimStart behind⟩
  rcases orElse_matched_iff.mp signed with single | ⟨-, colon⟩
  · obtain ⟨c, more, taken, -⟩ := bind_matched_iff.mp single
    obtain ⟨start, -⟩ := char_matched_iff.mp taken
    exact sign (by rw [start]; rfl) (by decide) (by decide)
  · obtain ⟨c, more, taken, -⟩ := bind_matched_iff.mp colon
    obtain ⟨start, -⟩ := char_matched_iff.mp taken
    exact sign (by rw [start]; rfl) (by decide) (by decide)

/-- A name and an equals sign stand in front of a stranded text. -/
structure AssignsStranded (text : Text) (name : Name) (behind value : Text) : Prop where
  named : propertyName text = .matched name behind
  assigns : equals behind = .matched () value
  stranded : Stranded value

namespace AssignsStranded

variable {text behind value : Text} {name : Name} (h : AssignsStranded text name behind value)

include h

/-- The text starts with a name. -/
theorem starts : ∃ c rest, text = c :: rest ∧ startsName c = true := by
  cases text with
  | nil => exact absurd h.named (by simp [show propertyName [] = .mismatch [] from rfl])
  | cons c rest =>
    refine ⟨c, rest, rfl, ?_⟩
    rw [← Bool.not_eq_false]
    intro apart
    exact not_mismatches_of_matched h.named (mismatches_propertyName ((Text.stops_cons ..).mpr apart))

/-- Behind a keyword that is the name stands no further name. -/
theorem behind_keyword {word found rest : Text} (nonempty : word ≠ [])
    (chars : ∀ c ∈ word, isNameChar c = true) (taken : keyword word text = .matched found rest) :
    rest = behind := by
  have again := h.named.symm.trans (propertyName_of_keyword nonempty chars taken)
  cases again
  rfl

/-- No name stands in front of the equals sign. -/
theorem noName : Text.Stops startsName behind.trimStart :=
  (equals_shape h.assigns).1

/-- The name is not the keyword of a dynamic block. -/
theorem behind_blockName {found : Bool × Name} {rest : Text}
    (taken : blockName text = .matched found rest) : rest = behind := by
  rcases orElse_matched_iff.mp taken with dynamic | ⟨-, plain⟩
  · obtain ⟨word, after, keyword, more⟩ := bind_matched_iff.mp dynamic
    obtain rfl := h.behind_keyword (by decide) (by decide) keyword
    rw [bind_of_matched (whitespace_apply after)] at more
    exact absurd ((mismatches_propertyName h.noName).bind _) (not_mismatches_of_matched more)
  · simp only [bind_matched_iff, pure_matched_iff] at plain
    obtain ⟨other, _, found, -, rfl⟩ := plain
    have again := h.named.symm.trans found
    cases again
    rfl

/-- Nor does a label. -/
theorem noLabel {next : Text → Rule Node} :
    (whitespace >>= fun _ => label >>= next).Mismatches behind :=
  Mismatches.behind (whitespace_apply behind) ((mismatches_label h.noName).bind _)

/-- It is not the body of a function, whose brace would follow the name. -/
theorem functionDeclaration : (Grammar.functionDeclaration inner).Refuses text := by
  refine Refuses.behind fun _ _ taken => ?_
  obtain rfl := h.behind_keyword (by decide) (by decide) taken
  exact h.noLabel.refuses

/-- A label that may stand behind the equals sign is made of signs, and no body follows them. -/
theorem labelledBlock : (Grammar.labelledBlock inner).Refuses text := by
  refine Refuses.behind fun _ _ taken => ?_
  obtain rfl := h.behind_blockName taken
  refine Refuses.behind fun _ _ optional => ?_
  rcases optional_matched_iff.mp optional with ⟨_, -, assigns⟩ | ⟨-, mismatch, -⟩
  · cases h.assigns.symm.trans assigns
    refine Refuses.behind fun _ _ space => Refuses.behind fun _ _ labelled => ?_
    rw [whitespace_matched_iff, h.stranded.trimStart] at space
    subst space
    exact (h.stranded.label labelled).blockBody.bind _
  · exact absurd mismatch (not_mismatches_of_matched h.assigns)

/-- It is not a block with two labels. -/
theorem typedBlock : (Grammar.typedBlock inner).Refuses text := by
  refine Refuses.behind fun _ _ taken => ?_
  obtain rfl := h.behind_blockName taken
  exact h.noLabel.refuses

/-- No value is read there. -/
theorem property {next : Name → Rule Node} (mismatch : ∀ name, (next name).Mismatches value) :
    (propertyName >>= fun name => equals >>= fun _ => next name).Mismatches text :=
  Mismatches.behind h.named (Mismatches.behind h.assigns (mismatch name))

/-- It is no comment. -/
theorem comment : Grammar.comment.Mismatches text := by
  obtain ⟨c, rest, rfl, starts⟩ := h.starts
  exact mismatches_comment (Text.head?_cons_ne starts (by decide) rest)
    (Text.head?_cons_ne starts (by decide) rest)

end AssignsStranded

/-! ### Alternatives that are never reached -/

section Open

variable {rules : Inner} [Descends rules.value] [Descends rules.declarations]

/-- Where there is no expression there is no term. -/
theorem mismatches_operand_of_expressionTerms {text : Text} {multiline : Bool}
    (h : (expressionTerms rules multiline).Mismatches text) : (operand rules).Mismatches text := by
  rw [expressionTerms_eq] at h
  rcases mismatches_bind_iff.mp h with noTerm | ⟨_, _, -, more⟩
  · obtain ⟨place, gaveUp⟩ := noTerm
    rw [unaryOperand_eq] at gaveUp
    obtain ⟨unsigned, -⟩ := mismatches_orElse_iff.mp ⟨place, gaveUp⟩
    rcases mismatches_bind_iff.mp unsigned with noTerm | ⟨term, rest, -, more⟩
    · exact noTerm
    · split at more
      · -- Accessors may be left out.
        rcases mismatches_bind_iff.mp more with never | ⟨found, _, -, never⟩
        · rcases answers accessor rest with mismatch | ⟨text, behind, taken⟩
          · exact absurd never (not_mismatches_of_matched (optional_of_mismatches mismatch))
          · exact absurd never (not_mismatches_of_matched (optional_of_matched taken))
        · cases found <;> exact absurd never (not_mismatches_pure _ _)
      · exact absurd more (not_mismatches_pure _ _)
  · rcases mismatches_bind_iff.mp more with never | ⟨_, _, -, never⟩
    · exact absurd never (not_mismatches _ _)
    · exact absurd never (not_mismatches_pure _ _)

/-- A value that is no expression is no list, map, heredoc or for expression either. -/
theorem mismatches_behind_unquoted {text : Text} (h : (unquotedProperty rules).Mismatches text) :
    (listProperty rules).Mismatches text ∧ (mapProperty rules).Mismatches text
      ∧ heredocProperty.Mismatches text ∧ forListProperty.Mismatches text := by
  -- All these rules read a name and an equals sign first; what they read then is an operand.
  have property {behind : Name → Rule Node}
      (none : ∀ {value : Text} {name : Name}, (operand rules).Mismatches value →
        (behind name).Mismatches value) :
      (propertyName >>= fun name => equals >>= fun _ => behind name).Mismatches text := by
    rcases mismatches_bind_iff.mp h with noName | ⟨name, rest, named, h⟩
    · exact noName.bind _
    rcases mismatches_bind_iff.mp h with noSign | ⟨_, value, assigns, h⟩
    · exact (noSign.bind _).behind named
    rcases mismatches_bind_iff.mp h with noTerms | ⟨_, _, -, never⟩
    · exact ((none (mismatches_operand_of_expressionTerms noTerms)).behind assigns).behind named
    · exact absurd never (not_mismatches_pure _ _)
  simp only [operand, mismatches_orElse_iff] at property
  refine ⟨property ?_, property ?_, property ?_, property ?_⟩
  · rintro value name ⟨-, -, -, -, noList, -⟩
    exact noList.bind _
  · rintro value name ⟨-, -, -, -, -, noMap, -⟩
    exact noMap.bind _
  · rintro value name ⟨-, -, -, -, -, -, noHeredoc, -⟩
    rcases mismatches_bind_iff.mp noHeredoc with noHeredoc | ⟨_, _, -, never⟩
    · exact noHeredoc.bind _
    · exact absurd never (not_mismatches_pure _ _)
  · rintro value name ⟨-, -, -, noLoop, -⟩
    exact noLoop.bind _

/-- Once no expression stands behind the name, only a comment is left. -/
theorem alike_behind_unquoted (rules : Inner) [Descends rules.value] [Descends rules.declarations] :
    Alike (unquotedProperty rules <|> listProperty rules <|> mapProperty rules <|> heredocProperty
      <|> comment <|> forListProperty) (unquotedProperty rules <|> comment) := by
  intro text
  by_cases noProperty : (unquotedProperty rules).Mismatches text
  · obtain ⟨noList, noMap, noHeredoc, noLoop⟩ := mismatches_behind_unquoted noProperty
    rw [Mismatches, orElse_of_mismatches noProperty, orElse_of_mismatches noList,
      orElse_of_mismatches noMap, orElse_of_mismatches noHeredoc, Mismatches,
      orElse_of_mismatches noProperty]
    by_cases noComment : comment.Mismatches text
    · exact .inr ⟨mismatches_orElse_iff.mpr ⟨noComment, noLoop⟩, noComment⟩
    · exact .inl (orElse_of_not_mismatches noComment _)
  · rw [orElse_of_not_mismatches noProperty, orElse_of_not_mismatches noProperty]
    exact .inl rfl

end Open

end HclSyntax.Grammar
