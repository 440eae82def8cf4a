import HclSyntax.Proofs.Grammar.Consumption
import HclSyntax.Proofs.Grammar.Induction
import HclSyntax.Proofs.Grammar.Tentative
import HclSyntax.Proofs.Grammar.Verbatim
import HclSyntax.Proofs.Rule.Fault

/-!
# `HclSyntax.Proofs.Grammar.Fault`: the place of a fault

`Construct.Unclosed before rest` says that a construct is open behind `before` and that nothing in
`rest` ends it. `Fault.Fits` adds the one fault that is no missing end: a block body that goes on
with something else than a declaration or its brace. Every fault of the grammar fits where it is
reported (`fits_declarations`, `fits_value`).

The faults of bodies need one thing more: the sequence of declarations inside never mismatches
(`decided_declarations`), so that only the missing brace can make a body fail.
-/

set_option autoImplicit false

set_option synthInstance.maxSize 100000

namespace HclSyntax

/-- A construct is open where `rest` begins, behind `before`, and never ends. Those that are read
piece by piece run to the end of the text. -/
def Construct.Unclosed (before rest : Text) : Construct → Prop
  | .quotedString => ['"'] <:+ before ∧ Text.quotedSpan ('"' :: rest) = none
  | .comment => "/*".toList <:+ before ∧ ¬ Grammar.closingMarker <:+: rest
  | .heredoc => ∃ marker indented first, Grammar.IsHeredocLine marker indented first
      ∧ first <:+ before ∧ ∀ line ∈ rest.lines, Grammar.closingLine? marker line = none
  | _ => rest = []

/-- A fault is what is wrong where `rest` begins, behind `before`. -/
def Fault.Fits (before rest : Text) : Fault → Prop
  | .unterminated construct => construct.Unclosed before rest
  | .unclosedBody bodies => 1 ≤ bodies ∧ Text.Stops isWhitespace rest ∧ rest.head? ≠ some '}'

namespace Grammar

open Rule

instance : Cause Fault.Fits where
  append {before rest fault} front h := by
    have further {word : Text} (opens : word <:+ before) : word <:+ front ++ before :=
      opens.trans (List.suffix_append ..)
    cases fault with
    | unclosedBody bodies => exact h
    | unterminated construct =>
      cases construct with
      | quotedString => exact h.imp_left further
      | comment => exact h.imp_left further
      | heredoc =>
        obtain ⟨marker, indented, first, isLine, opens, goesOn⟩ := h
        exact ⟨marker, indented, first, isLine, further opens, goesOn⟩
      | block | list | map | functionCall | parenthesized | forExpression => exact h

/-- Every fault of a rule that is explained fits. -/
theorem fits_of_committed {α : Type} {rule : Rule α} [Explains Fault.Fits rule] {text rest : Text}
    {fault : Fault} (h : rule text = .committed rest fault) :
    ∃ before, text = before ++ rest ∧ fault.Fits before rest :=
  Explains.cause h

/-! ### Where faults arise -/

instance : Explains Fault.Fits quotedString where
  cause {text rest fault} h := by
    unfold quotedString at h
    split at h
    · cases h
    · next c behind =>
      split at h
      · next opens =>
        split at h
        · cases h
        · next never =>
          cases h
          exact ⟨['"'], by rw [opens]; rfl, List.suffix_refl _, by simp [Text.quotedSpan, never]⟩
      · cases h

/-- A text without a word cannot be split at it. -/
theorem not_infix_of_splitAtWord_eq_none {text word : Text} (h : text.splitAtWord word = none) :
    ¬ word <:+: text := by
  rintro ⟨before, after, rfl⟩
  induction before with
  | nil =>
    have found : word.isPrefixOf? ([] ++ word ++ after) = some after :=
      List.isPrefixOf?_eq_some_iff_append_eq.mpr rfl
    rw [Text.splitAtWord.eq_def, found] at h
    cases h
  | cons c before ih =>
    rw [Text.splitAtWord.eq_def] at h
    split at h
    · cases h
    · exact ih (Option.map_eq_none_iff.mp h)

instance : Explains Fault.Fits bracketedComment where
  cause {text rest fault} h := by
    rcases bind_committed_iff.mp h with opens | ⟨_, behind, opens, more⟩
    · exact (not_committed opens).elim
    · obtain ⟨rfl, -⟩ := word_matched_iff.mp opens
      split at more
      · cases more
      · next never =>
        cases more
        exact ⟨_, rfl, List.suffix_refl _, not_infix_of_splitAtWord_eq_none never⟩

instance : Explains Fault.Fits heredoc where
  cause {text rest fault} h := by
    rcases bind_committed_iff.mp h with opens | ⟨⟨indented, marker⟩, behind, opens, more⟩
    · exact (not_committed opens).elim
    · obtain ⟨line, first, rfl⟩ := isHeredocLine_of_matched opens
      dsimp only at more
      split at more
      · cases more
      · next never =>
        cases more
        exact ⟨line, rfl, marker, indented, line, first, List.suffix_refl _,
          (heredocBody_eq_none_iff first.nonempty).mp never⟩

/-- The constructs that are read piece by piece never end where the text ends. -/
theorem explains_closing (bracket : Char) (construct : Construct)
    (endless : ∀ before, construct.Unclosed before []) :
    Explains Fault.Fits (closing bracket construct) where
  cause {text rest fault} h := by
    rcases bind_committed_iff.mp h with never | ⟨_, behind, space, h⟩
    · exact (not_committed never).elim
    · refine Cause.of_suffix (Descends.of_matched space) ?_
      -- The only fault is the end of the text where a bracket should close.
      rcases bind_committed_iff.mp h with never | ⟨_, _, found, h⟩
      · cases never
      · obtain ⟨rfl, rfl⟩ := remaining_matched_iff.mp found
        split at h
        · next empty =>
          cases h
          rw [List.isEmpty_iff] at empty
          exact ⟨[], rfl, empty ▸ endless []⟩
        · exact (not_committed h).elim

instance (stop : Text → Bool) : Explains Fault.Fits (loopPart stop) where
  cause {text rest fault} h := by
    unfold loopPart at h
    split at h
    · cases h
    · cases h
      exact ⟨text, (List.append_nil text).symm, rfl⟩

/-! ### Literals, names and types -/

instance : Explains Fault.Fits scalar := by
  unfold scalar
  infer_instance

instance : Explains Fault.Fits comment :=
  inferInstanceAs (Explains Fault.Fits (lineComment <|> bracketedComment))

instance : Explains Fault.Fits propertyName := by
  unfold propertyName
  infer_instance

instance : Explains Fault.Fits label :=
  inferInstanceAs (Explains Fault.Fits (quotedString <|> identifier))

instance (openingBracket closingBracket : Char) :
    Explains Fault.Fits (forLoop openingBracket closingBracket) := by
  have := explains_closing closingBracket .forExpression fun _ => rfl
  unfold forLoop
  infer_instance

instance : Explains Fault.Fits forObject :=
  inferInstanceAs (Explains Fault.Fits (forLoop _ _))

instance : Explains Fault.Fits forList :=
  inferInstanceAs (Explains Fault.Fits (forLoop _ _))

section TypeConstraint
variable {rule : Rule Node} [Descends rule] [Explains Fault.Fits rule]

instance (collection : CollectionType) : Explains Fault.Fits (collectionType rule collection) := by
  unfold collectionType
  infer_instance

instance : Explains Fault.Fits (typeMember rule) := by
  unfold typeMember
  infer_instance

instance : Explains Fault.Fits (objectType rule) := by
  unfold objectType
  infer_instance

instance : Explains Fault.Fits (tupleType rule) := by
  unfold tupleType
  infer_instance

instance : Explains Fault.Fits (typeConstraintOver rule) := by
  unfold typeConstraintOver
  infer_instance

end TypeConstraint

instance : Explains Fault.Fits typeConstraint where
  cause {text rest fault} h := by
    refine typeConstraint_induction (fun text reply => ∀ rest fault,
      reply = .committed rest fault → ∃ before, text = before ++ rest ∧ fault.Fits before rest)
      (fun _ _ _ h => nomatch h) (fun rule descends inside text rest fault h => ?_) text rest fault h
    have : Explains Fault.Fits rule := ⟨fun {text rest fault} h => inside text rest fault h⟩
    exact Explains.cause h

/-! ### Values and declarations -/

/-- The brackets of lists, calls and groups. -/
theorem explains_elements (rules : Inner) [Descends rules.value] [Explains Fault.Fits rules.value]
    (bracket : Char) (construct : Construct) (endless : ∀ before, construct.Unclosed before []) :
    Explains Fault.Fits (elements rules bracket construct) := by
  have := explains_closing bracket construct endless
  unfold elements
  infer_instance

/-- What stands behind the opening brace of a block body. -/
def bodyEnd (rules : Inner) : Rule (List Node) := do
  let declarations ← rules.declarations
  whitespace
  let _ ← char '}'
  return declarations

/-- The body of a block is a brace and what stands behind it. -/
theorem blockBody_eq (rules : Inner) : blockBody rules = (do
    whitespace
    let _ ← char '{'
    body (bodyEnd rules)) := rfl

/-- Inside a body the declarations go on as long as they can. So it is the closing brace that is
missing where the body gives up, behind all white space. -/
theorem bodyEnd_mismatch {rules : Inner} [Descends rules.declarations] [Decided rules.declarations]
    {text rest : Text} (h : bodyEnd rules text = .mismatch rest) :
    rest <:+ text ∧ Text.Stops isWhitespace rest ∧ rest.head? ≠ some '}' := by
  rcases bind_mismatch_iff.mp h with never | ⟨found, behind, goesOn, h⟩
  · exact absurd ⟨rest, never⟩ (not_mismatches rules.declarations text)
  rw [bind_of_matched (whitespace_apply behind)] at h
  rcases bind_mismatch_iff.mp h with missing | ⟨_, _, -, never⟩
  · obtain ⟨noBrace, rfl⟩ := char_mismatch_iff.mp missing
    have inside := Text.trimStart_suffix behind
    exact ⟨inside.trans (Descends.of_matched goesOn), Text.stops_trimStart behind, noBrace⟩
  · cases never

section Open
variable {rules : Inner} [Descends rules.value] [Descends rules.declarations]
  [Explains Fault.Fits rules.value] [Explains Fault.Fits rules.declarations]

instance : Explains Fault.Fits (functionCall rules) := by
  have := explains_elements rules ')' .functionCall fun _ => rfl
  unfold functionCall
  infer_instance

instance : Explains Fault.Fits (parenthesized rules) := by
  have := explains_elements rules ')' .parenthesized fun _ => rfl
  unfold parenthesized
  infer_instance

instance : Explains Fault.Fits (list rules) := by
  have := explains_elements rules ']' .list fun _ => rfl
  unfold list
  infer_instance

instance : Explains Fault.Fits (map rules) := by
  have := explains_closing '}' .map fun _ => rfl
  unfold map
  infer_instance

instance : Explains Fault.Fits (operand rules) := by
  unfold operand
  infer_instance

instance : Explains Fault.Fits (operandWithAccessor rules) := by
  rw [operandWithAccessor_eq]
  infer_instance

instance : Explains Fault.Fits (unaryOperand rules) where
  cause {text rest fault} h := by
    induction text using signs_induction with
    | step text ih =>
      rw [unaryOperand_eq] at h
      rcases orElse_committed_iff.mp h with found | ⟨-, signed⟩
      · exact Explains.cause found
      · rcases bind_committed_iff.mp signed with never | ⟨sign, behind, takes, more⟩
        · exact (not_committed never).elim
        rw [bind_of_matched (whitespace_apply behind)] at more
        rcases bind_committed_iff.mp more with deeper | ⟨terms, _, -, never⟩
        · exact Cause.of_suffix ((Text.trimStart_suffix behind).trans (Descends.of_matched takes))
            (ih takes deeper)
        · cases never

instance (multiline : Bool) : Explains Fault.Fits (expressionTerms rules multiline) := by
  unfold expressionTerms
  infer_instance

instance : Explains Fault.Fits (valueOver rules) := by
  unfold valueOver
  infer_instance

instance : Explains Fault.Fits (bodyEnd rules) := by
  unfold bodyEnd
  infer_instance

instance [Decided rules.declarations] : Explains Fault.Fits (body (bodyEnd rules)) where
  cause {text rest fault} h := by
    rcases body_committed_iff.mp h with ⟨missing, rfl⟩ | ⟨bodies, deeper, rfl⟩ | ⟨_, deeper, rfl⟩
    · obtain ⟨⟨before, rfl⟩, noSpace, noBrace⟩ := bodyEnd_mismatch missing
      exact ⟨before, rfl, Nat.le_refl 1, noSpace, noBrace⟩
    · obtain ⟨before, rfl, known⟩ := fits_of_committed deeper
      exact ⟨before, rfl, Nat.le_succ_of_le known.1, known.2⟩
    · exact Explains.cause deeper

instance [Decided rules.declarations] : Explains Fault.Fits (blockBody rules) := by
  rw [blockBody_eq]
  infer_instance

instance : Explains Fault.Fits blockName := by
  unfold blockName
  infer_instance

instance [Decided rules.declarations] : Explains Fault.Fits (declaration rules) := by
  unfold declaration namedBlock typedProperty functionProperty forObjectProperty
    functionDeclaration labelledBlock typedBlock scalarProperty unquotedProperty listProperty
    mapProperty heredocProperty forListProperty assigned
  infer_instance

instance [Decided rules.declarations] : Explains Fault.Fits (declarationsOver rules) := by
  unfold declarationsOver
  infer_instance

end Open

/-! ### The recursion -/

/-- Every fault of `value` and of `declarations` fits where it is reported. -/
theorem fits_inner (text : Text) :
    (∀ rest fault, value text = .committed rest fault →
        ∃ before, text = before ++ rest ∧ fault.Fits before rest)
      ∧ ∀ rest fault, declarations text = .committed rest fault →
        ∃ before, text = before ++ rest ∧ fault.Fits before rest := by
  -- The faults of bodies are only known when the declarations inside never mismatch.
  have := inner_induction
    (fun text reply => ∀ rest fault, reply = .committed rest fault →
      ∃ before, text = before ++ rest ∧ fault.Fits before rest)
    (fun text reply => (∀ place, reply ≠ .mismatch place)
      ∧ ∀ rest fault, reply = .committed rest fault →
        ∃ before, text = before ++ rest ∧ fault.Fits before rest)
    (fun _ _ _ h => nomatch h) (fun _ => ⟨fun _ => nofun, fun _ _ h => nomatch h⟩)
    (fun rules _ _ values lists text => by
      have : Explains Fault.Fits rules.value := ⟨fun {text rest fault} => values text rest fault⟩
      have : Explains Fault.Fits rules.declarations :=
        ⟨fun {text rest fault} => (lists text).2 rest fault⟩
      have : Decided rules.declarations := ⟨fun text ⟨place, h⟩ => (lists text).1 place h⟩
      exact ⟨fun rest fault h => Explains.cause h,
        fun place h => not_mismatches (declarationsOver rules) text ⟨place, h⟩,
        fun rest fault h => Explains.cause h⟩)
    text
  exact ⟨this.1, this.2.2⟩

end Grammar

end HclSyntax
