import HclSyntax.Grammar.Template
import HclSyntax.Proofs.Rule.Progress

/-!
# `HclSyntax.Proofs.Grammar.Recursion`: the recursion of the grammar without its guards

`Grammar.value`, `Grammar.declarations` and `Grammar.typeConstraint` recurse on the length of the
text and test, before they read what stands inside a bracket, that it is shorter. The tests never
turn anything down, and this module removes them:

* `typeConstraint_eq`: a type constraint is read over the rule for type constraints itself;
* `value_eq` and `declarations_eq`: values and declarations are read over `Grammar.inner`.

Two rules recurse on their own, along the lines of a heredoc and along the signs of a term; facts
about them follow `heredocBody_induction` and `signs_induction`.

Each rule of the grammar gets an instance of `Rule.Descends`, and each rule that is stated over the
rules inside brackets one of `Rule.AgreesBelow`. The bound rises by one wherever a rule takes its
opening bracket, and this one character is why the guards always hold.
-/

set_option autoImplicit false

set_option synthInstance.maxSize 10000

namespace HclSyntax.Grammar

open Rule

/-! ### Literals, names and comments -/

instance {rule : Rule Text} [Descends rule] : Descends (optionalText rule) :=
  inferInstanceAs (Descends (optional rule >>= fun _ => _))

instance : Descends exponent := by
  unfold exponent
  infer_instance

instance : Descends fraction := by
  unfold fraction
  infer_instance

instance : Descends decimal := by
  unfold decimal
  infer_instance

instance : Descends hexadecimal := by
  unfold hexadecimal
  infer_instance

instance : Descends number := by
  unfold number
  infer_instance

instance (expected : Text) : Descends (wordAnyCase expected) where
  suffix text := by
    unfold wordAnyCase
    dsimp only
    split
    · exact List.drop_suffix ..
    · exact List.suffix_refl text

instance : Descends boolean := by
  unfold boolean
  infer_instance

instance : Descends numberOrBool := by
  unfold numberOrBool
  infer_instance

instance : Descends quotedString where
  suffix text := by
    unfold quotedString
    split
    · exact List.suffix_refl []
    · next c rest =>
      split
      · split
        · next span after closed =>
          exact ⟨c :: span, congrArg (c :: ·) (Text.close_append closed)⟩
        · exact List.suffix_cons c rest
      · exact List.suffix_refl _

instance : Descends scalar := by
  unfold scalar
  infer_instance

/-- What follows the closing marker on a line is the end of the line. -/
theorem closingLine?_suffix {marker line tail : Text} (h : closingLine? marker line = some tail) :
    tail <:+ line := by
  unfold closingLine? at h
  split at h
  · next found same =>
    split at h
    · cases h
      have start := List.isPrefixOf?_eq_some_iff_append_eq.mp same
      exact List.IsSuffix.trans ⟨marker, start⟩ (List.dropWhile_suffix _)
    · cases h
  · cases h

section Lines
variable {marker text line more tail inside after : Text}

/-- The body of a heredoc is empty if its marker closes it on the first line. -/
theorem heredocBody_closing (first : text.splitLine = (line, more))
    (closes : closingLine? marker line = some tail) :
    heredocBody marker text = some ([], tail ++ more) := by
  rw [heredocBody]
  simp only [first, closes]

/-- A line that does not close the heredoc belongs to its body. -/
theorem heredocBody_line (first : text.splitLine = (line, more))
    (goesOn : closingLine? marker line = none) (further : more ≠ [])
    (found : heredocBody marker more = some (inside, after)) :
    heredocBody marker text = some (line ++ inside, after) := by
  rw [heredocBody]
  simp only [first, goesOn, further, found, dite_false, Option.map_some]

/-- What is to be shown of the lines of a heredoc is shown where a line closes it, and of a line where
it is known of the lines behind it. -/
@[elab_as_elim]
theorem heredocBody_induction
    {motive : ∀ text inside after, heredocBody marker text = some (inside, after) → Prop}
    (closes : ∀ {text tail} (found : closingLine? marker text.splitLine.1 = some tail),
      motive text [] (tail ++ text.splitLine.2) (heredocBody_closing rfl found))
    (goesOn : ∀ {text lines after} (notClosing : closingLine? marker text.splitLine.1 = none)
      (more : text.splitLine.2 ≠ [])
      (found : heredocBody marker text.splitLine.2 = some (lines, after)),
      motive text.splitLine.2 lines after found →
        motive text (text.splitLine.1 ++ lines) after (heredocBody_line rfl notClosing more found))
    (h : heredocBody marker text = some (inside, after)) : motive text inside after h := by
  -- A line is never empty in front of further ones, so the rest is shorter.
  induction length : text.length using Nat.strongRecOn generalizing text inside after with
  | _ n ih =>
    have lines := h
    rw [heredocBody] at lines
    split at lines
    · next tail found =>
      cases lines
      exact closes found
    · next notClosing =>
      split at lines
      · cases lines
      · next more =>
        obtain ⟨⟨inside, after⟩, found, same⟩ := Option.map_eq_some_iff.mp lines
        cases same
        have shorter : text.splitLine.2.length < text.length :=
          Text.splitLine_shortens fun empty => more (by rw [empty]; rfl)
        exact goesOn notClosing more found (ih _ (length ▸ shorter) found rfl)

/-- What follows a heredoc is an end of the text. -/
theorem heredocBody_suffix (h : heredocBody marker text = some (inside, after)) : after <:+ text := by
  induction h using heredocBody_induction with
  | @closes text tail found =>
    obtain ⟨front, line⟩ := closingLine?_suffix found
    refine ⟨front, ?_⟩
    rw [← List.append_assoc, line, Text.splitLine_append]
  | goesOn _ _ _ ih => exact ih.trans ⟨_, Text.splitLine_append _⟩

end Lines

instance : Descends heredocHead := by
  unfold heredocHead
  infer_instance

instance : Descends heredoc := by
  have (head : Bool × Text) : Descends fun text => match heredocBody head.2 text with
      | some (body, after) => Reply.matched (Heredoc.mk head.2 head.1 body) after
      | none => .committed text (.unterminated .heredoc) := by
    refine ⟨fun text => ?_⟩
    split
    · next closed => exact heredocBody_suffix closed
    · exact List.suffix_refl text
  exact Descends.bind

instance : Descends commentStyle := by
  unfold commentStyle
  infer_instance

instance : Descends lineComment := by
  unfold lineComment
  infer_instance

/-- What follows a word is an end of the text. -/
theorem splitAtWord_append {text expected before after : Text}
    (h : text.splitAtWord expected = some (before, after)) : before ++ expected ++ after = text := by
  induction text generalizing before with
  | nil =>
    unfold Text.splitAtWord at h
    split at h
    · next found =>
      cases h
      simpa using List.isPrefixOf?_eq_some_iff_append_eq.mp found
    · cases h
  | cons c rest ih =>
    unfold Text.splitAtWord at h
    split at h
    · next found =>
      cases h
      simpa using List.isPrefixOf?_eq_some_iff_append_eq.mp found
    · obtain ⟨⟨front, tail⟩, found, same⟩ := Option.map_eq_some_iff.mp h
      cases same
      simpa using ih found

/-- What a comment in brackets says, and the bracket that closes it. -/
def commentBody : Rule Node :=
  fun text =>
    match text.splitAtWord "*/".toList with
    | some (inside, after) => .matched (.multilineComment inside) after
    | none => .committed text (.unterminated .comment)

/-- A comment in brackets is its opening and what goes up to its end. -/
theorem bracketedComment_eq : bracketedComment = word "/*".toList >>= fun _ => commentBody :=
  rfl

instance : Descends commentBody where
  suffix text := by
    unfold commentBody
    split
    · next closed => exact ⟨_, splitAtWord_append closed⟩
    · exact List.suffix_refl text

instance : Descends bracketedComment := by
  rw [bracketedComment_eq]
  infer_instance

instance : Descends comment :=
  inferInstanceAs (Descends (lineComment <|> bracketedComment))

instance : Descends identifier := by
  unfold identifier
  infer_instance

instance : Descends propertyName := by
  unfold propertyName
  infer_instance

instance : Descends label :=
  inferInstanceAs (Descends (quotedString <|> identifier))

instance : Descends equals := by
  unfold equals
  infer_instance

instance : Descends functionNamePart := by
  unfold functionNamePart
  infer_instance

instance : Descends functionName := by
  unfold functionName
  infer_instance

/-! ### Brackets and for expressions -/

/-- What is balanced and what follows it make up the text. -/
theorem balancedSplit_append {stop : Text → Bool} {depth : Nat} {text inside after : Text}
    (h : balancedSplit stop depth text = some (inside, after)) : inside ++ after = text := by
  fun_induction balancedSplit stop depth text generalizing inside after with
  | case1 | case3 => cases h
  | case2 | case5 => cases h; rfl
  | case4 depth rest _ span tail spans _ ih =>
    obtain ⟨⟨front, back⟩, found, same⟩ := Option.map_eq_some_iff.mp h
    cases same
    rw [List.append_assoc, ih found, Text.quotedSpan_append spans]
  | case6 | case7 =>
    rename_i ih
    obtain ⟨⟨front, back⟩, found, same⟩ := Option.map_eq_some_iff.mp h
    cases same
    simp [ih found]

instance (stop : Text → Bool) : Descends (balanced stop) where
  suffix text := by
    unfold balanced
    split
    · next found => exact ⟨_, balancedSplit_append found⟩
    · exact List.suffix_refl text

instance : Descends balancedToBracket :=
  inferInstanceAs (Descends (balanced _))

instance : Descends listIndex := by
  unfold listIndex
  infer_instance

instance : Descends forKeyword := by
  unfold forKeyword
  infer_instance

instance (bracket : Char) (construct : Construct) : Descends (closing bracket construct) := by
  unfold closing
  infer_instance

instance (stop : Text → Bool) : Descends (loopPart stop) where
  suffix text := by
    unfold loopPart
    split
    · next found => exact ⟨_, balancedSplit_append found⟩
    · exact List.nil_suffix

instance : Descends loopBindings := by
  rw [loopBindings_eq]
  infer_instance

instance : Descends loopCondition := by
  unfold loopCondition
  infer_instance

instance (openingBracket closingBracket : Char) :
    Descends (forLoop openingBracket closingBracket) := by
  unfold forLoop
  infer_instance

instance : Descends forObject :=
  inferInstanceAs (Descends (forLoop _ _))

instance : Descends forList :=
  inferInstanceAs (Descends (forLoop _ _))

/-! ### Symbols and unquoted text -/

instance descends_anyWord : ∀ words : List Text, Descends (anyWord words)
  | [] => inferInstanceAs (Descends fail)
  | expected :: others =>
    have := descends_anyWord others
    inferInstanceAs (Descends (word expected <|> anyWord others))

instance : Descends operator := by
  unfold operator
  infer_instance

instance : Descends unquotedText := by
  unfold unquotedText
  infer_instance

instance : Descends accessor := by
  unfold accessor
  infer_instance

instance : Descends callStart := by
  unfold callStart
  infer_instance

/-- The name of a call and its parenthesis take something. -/
theorem callStart_shortens {text name rest : Text} (h : callStart text = .matched name rest) :
    rest.length < text.length := by
  simp only [callStart, bind_matched_iff, char_matched_iff, pure_matched_iff] at h
  obtain ⟨_, _, found, _, _, spaces, _, tail, ⟨rfl, -⟩, -, rfl⟩ := h
  have first := (Descends.of_matched found).length_le
  have second := (Descends.of_matched spaces).length_le
  rw [List.length_cons] at second
  omega

/-! ### Type constraints -/

instance : Descends primitiveName := by
  unfold primitiveName
  infer_instance

instance : Descends primitiveType := by
  unfold primitiveType
  infer_instance

instance (name : Text) : Descends (typeWord name) := by
  unfold typeWord
  infer_instance

section TypeConstraint
variable {bound : Nat} {a b : Rule Node}

/-- The word of a type and its parenthesis take something. -/
theorem typeWord_shortens {name text rest : Text} {value : Unit}
    (h : typeWord name text = .matched value rest) : rest.length < text.length := by
  simp only [typeWord, bind_matched_iff, whitespace_matched_iff, char_matched_iff] at h
  obtain ⟨_, behindWord, found, _, _, rfl, _, behind, ⟨starts, -⟩, rfl⟩ := h
  have first := (Descends.of_matched found).length_le
  have second := Text.length_trimStart_le behindWord
  have third := Text.length_trimStart_le behind
  rw [starts, List.length_cons] at second
  omega

variable [AgreesBelow bound a b] [Descends b]

instance (collection : CollectionType) : Descends (collectionType b collection) := by
  unfold collectionType
  infer_instance

instance (collection : CollectionType) :
    AgreesBelow (bound + 1) (collectionType a collection) (collectionType b collection) :=
  AgreesBelow.behind typeWord_shortens

instance : Descends (typeMember b) := by
  unfold typeMember
  infer_instance

instance : AgreesBelow bound (typeMember a) (typeMember b) := by
  unfold typeMember
  infer_instance

instance : Descends (objectType b) := by
  unfold objectType
  infer_instance

instance : AgreesBelow (bound + 1) (objectType a) (objectType b) :=
  AgreesBelow.behind typeWord_shortens

instance : Descends (tupleType b) := by
  unfold tupleType
  infer_instance

instance : AgreesBelow (bound + 1) (tupleType a) (tupleType b) :=
  AgreesBelow.behind typeWord_shortens

instance : Descends (typeConstraintOver b) := by
  unfold typeConstraintOver
  infer_instance

instance : AgreesBelow (bound + 1) (typeConstraintOver a) (typeConstraintOver b) := by
  unfold typeConstraintOver
  infer_instance

end TypeConstraint

/-- The rule with a test that the text is shorter than a bound. -/
def guarded {α : Type} (bound : Nat) (rule : Rule α) : Rule α :=
  fun text => if text.length < bound then rule text else .mismatch text

instance {α : Type} (bound : Nat) (rule : Rule α) : AgreesBelow bound (guarded bound rule) rule :=
  ⟨fun short => by simp [guarded, short]⟩

/-- A type constraint is read over the rule for shorter texts. -/
theorem typeConstraint_guarded (text : Text) :
    typeConstraint text = typeConstraintOver (guarded text.length typeConstraint) text := by
  rw [typeConstraint]
  rfl

instance : Descends typeConstraint where
  suffix text := by
    induction h : text.length using Nat.strongRecOn generalizing text with
    | _ length ih =>
      have : Descends (guarded text.length typeConstraint) := ⟨fun shorter => by
        unfold guarded
        split
        · next less => exact ih _ (h ▸ less) shorter rfl
        · exact List.suffix_refl shorter⟩
      rw [typeConstraint_guarded]
      exact Descends.suffix text

/-- A type constraint is read over the rule for type constraints itself. -/
theorem typeConstraint_eq (text : Text) :
    typeConstraint text = typeConstraintOver typeConstraint text := by
  rw [typeConstraint_guarded]
  exact AgreesBelow.agree (Nat.lt_succ_self text.length)

/-! ### Values and declarations -/

/-- A sign and the term behind it. -/
def signedOperand (inner : Inner) : Rule (List Node) := do
  let sign ← oneOf ['!', '-']
  whitespace
  let terms ← unaryOperand inner
  return .mathSymbol [sign] :: terms

/-- A term with signs is a term without them, or a sign and a term with signs. -/
theorem unaryOperand_eq (inner : Inner) (text : Text) :
    unaryOperand inner text = (operandWithAccessor inner <|> signedOperand inner) text := by
  rw [unaryOperand.eq_def, orElse_apply]
  cases operandWithAccessor inner text with
  | matched terms rest => rfl
  | committed rest fault => rfl
  | mismatch place =>
    -- The rule looks at the first character itself, which is what `oneOf` does.
    cases text with
    | nil => rfl
    | cons c rest =>
      dsimp only
      rw [signedOperand, bind_apply, oneOf, charWhere]
      have same : (['!', '-'].contains c) = (c == '!' || c == '-') := by
        simp only [List.contains_cons, List.contains_nil, Bool.or_false]
      rw [same]
      split
      · change _ = (unaryOperand inner >>= _) (Text.trimStart rest)
        rw [bind_apply, Text.trimStart]
        cases unaryOperand inner _ <;> rfl
      · rfl

/-- A fact about terms with signs follows from the same fact behind the first sign. -/
@[elab_as_elim]
theorem signs_induction {motive : Text → Prop}
    (step : ∀ text, (∀ {sign behind}, oneOf ['!', '-'] text = .matched sign behind →
      motive behind.trimStart) → motive text) (text : Text) : motive text := by
  induction length : text.length using Nat.strongRecOn generalizing text with
  | _ n ih =>
    refine step text fun {sign behind} takes => ?_
    obtain ⟨rfl, -⟩ := oneOf_matched_iff.mp takes
    have shorter := Text.length_trimStart_le behind
    exact ih _ (by rw [← length, List.length_cons]; omega) _ rfl

section Open
variable {bound : Nat} {a b : Inner} [Descends b.value] [Descends b.declarations]
  [AgreesBelow bound a.value b.value] [AgreesBelow bound a.declarations b.declarations]

instance (bracket : Char) (construct : Construct) : Descends (elements b bracket construct) := by
  unfold elements
  infer_instance

instance (bracket : Char) (construct : Construct) :
    AgreesBelow bound (elements a bracket construct) (elements b bracket construct) := by
  unfold elements
  infer_instance

instance : Descends (functionCall b) := by
  unfold functionCall
  infer_instance

instance : AgreesBelow (bound + 1) (functionCall a) (functionCall b) :=
  AgreesBelow.behind callStart_shortens

instance : Descends (parenthesized b) := by
  unfold parenthesized
  infer_instance

instance : AgreesBelow (bound + 1) (parenthesized a) (parenthesized b) := by
  unfold parenthesized
  infer_instance

instance : Descends (list b) := by
  unfold list
  infer_instance

instance : AgreesBelow (bound + 1) (list a) (list b) := by
  unfold list
  infer_instance

instance : Descends (map b) := by
  unfold map
  infer_instance

instance : AgreesBelow (bound + 1) (map a) (map b) := by
  unfold map
  infer_instance

instance : Descends (operand b) := by
  unfold operand
  infer_instance

instance : AgreesBelow (bound + 1) (operand a) (operand b) := by
  unfold operand
  infer_instance

instance : Descends (operandWithAccessor b) := by
  rw [operandWithAccessor_eq]
  infer_instance

instance : AgreesBelow (bound + 1) (operandWithAccessor a) (operandWithAccessor b) := by
  rw [operandWithAccessor_eq, operandWithAccessor_eq]
  infer_instance

instance : Descends (unaryOperand b) where
  suffix text := by
    induction text using signs_induction with
    | step text ih =>
      rw [unaryOperand_eq]
      refine rest_orElse_suffix (rest_suffix _ text) ?_
      refine rest_bind_suffix (rest_suffix _ text) fun {_ behind} takes => ?_
      refine rest_bind_suffix (rest_suffix whitespace behind) fun skipped => ?_
      obtain rfl := whitespace_matched_iff.mp skipped
      exact rest_bind_suffix (ih takes) fun {_ rest} _ => List.suffix_refl rest

instance : AgreesBelow (bound + 1) (unaryOperand a) (unaryOperand b) where
  agree {text} short := by
    induction text using signs_induction with
    | step text ih =>
      have signed : signedOperand a text = signedOperand b text := by
        refine bind_apply_congr rfl fun {_ behind} takes => bind_apply_congr rfl fun skipped => ?_
        obtain rfl := whitespace_matched_iff.mp skipped
        have shorter := Text.length_trimStart_le behind
        obtain ⟨rfl, -⟩ := oneOf_matched_iff.mp takes
        rw [List.length_cons] at short
        exact bind_apply_congr (ih takes (by omega)) fun _ => rfl
      rw [unaryOperand_eq, unaryOperand_eq, orElse_apply, orElse_apply, signed,
        AgreesBelow.agree (a := operandWithAccessor a) (b := operandWithAccessor b) short]

instance (multiline : Bool) : Descends (expressionTerms b multiline) := by
  unfold expressionTerms
  infer_instance

instance (multiline : Bool) :
    AgreesBelow (bound + 1) (expressionTerms a multiline) (expressionTerms b multiline) := by
  unfold expressionTerms
  infer_instance

instance : Descends (valueOver b) := by
  unfold valueOver
  infer_instance

instance : AgreesBelow (bound + 1) (valueOver a) (valueOver b) := by
  unfold valueOver
  infer_instance

instance : Descends (blockBody b) := by
  unfold blockBody
  infer_instance

instance : Descends blockName := by
  unfold blockName
  infer_instance

instance : Descends endOfValue := by
  unfold endOfValue
  infer_instance

instance (kind : PropertyKind) {rule : Rule Node} [Descends rule] :
    Descends (assigned kind rule) := by
  unfold assigned
  infer_instance

instance : AgreesBelow (bound + 1) (blockBody a) (blockBody b) := by
  unfold blockBody
  infer_instance

instance (kind : PropertyKind) {f g : Rule Node} [AgreesBelow bound f g] [Descends g] :
    AgreesBelow bound (assigned kind f) (assigned kind g) := by
  unfold assigned
  infer_instance

instance : Descends (declaration b) := by
  unfold declaration namedBlock typedProperty functionProperty forObjectProperty
    functionDeclaration labelledBlock typedBlock scalarProperty unquotedProperty listProperty
    mapProperty heredocProperty forListProperty
  infer_instance

instance : AgreesBelow (bound + 1) (declaration a) (declaration b) := by
  unfold declaration namedBlock functionProperty forObjectProperty functionDeclaration
    labelledBlock typedBlock unquotedProperty listProperty mapProperty
  infer_instance

instance : Descends (declarationsOver b) := by
  unfold declarationsOver
  infer_instance

instance : AgreesBelow (bound + 1) (declarationsOver a) (declarationsOver b) := by
  unfold declarationsOver
  infer_instance


end Open

/-! ### The recursion -/

/-- The rules inside brackets, each with a test that the text is shorter than a bound. -/
def Inner.guarded (bound : Nat) (inner : Inner) : Inner :=
  ⟨Grammar.guarded bound inner.value, Grammar.guarded bound inner.declarations⟩

/-- A value is read over the rules for shorter texts. -/
theorem value_guarded (text : Text) : value text = valueOver (inner.guarded text.length) text := by
  rw [value]
  rfl

/-- Declarations are read over the rules for shorter texts. -/
theorem declarations_guarded (text : Text) :
    declarations text = declarationsOver (inner.guarded text.length) text := by
  rw [declarations]
  rfl

/-- What `value` and `declarations` leave of a text is an end of it. -/
theorem inner_suffix (text : Text) :
    (value text).rest <:+ text ∧ (declarations text).rest <:+ text := by
  induction h : text.length using Nat.strongRecOn generalizing text with
  | _ length ih =>
    -- Inside brackets the guards let only shorter texts through, for which the induction has the
    -- claim.
    have : Descends (inner.guarded text.length).value := ⟨fun shorter => by
      unfold Inner.guarded guarded
      dsimp only
      split
      · next less => exact (ih _ (h ▸ less) shorter rfl).1
      · exact List.suffix_refl shorter⟩
    have : Descends (inner.guarded text.length).declarations := ⟨fun shorter => by
      unfold Inner.guarded guarded
      dsimp only
      split
      · next less => exact (ih _ (h ▸ less) shorter rfl).2
      · exact List.suffix_refl shorter⟩
    rw [value_guarded, declarations_guarded]
    exact ⟨Descends.suffix text, Descends.suffix text⟩

instance : Descends inner.value :=
  ⟨fun text => (inner_suffix text).1⟩

instance : Descends inner.declarations :=
  ⟨fun text => (inner_suffix text).2⟩

instance (bound : Nat) : AgreesBelow bound (inner.guarded bound).value inner.value :=
  inferInstanceAs (AgreesBelow bound (guarded bound _) _)

instance (bound : Nat) : AgreesBelow bound (inner.guarded bound).declarations inner.declarations :=
  inferInstanceAs (AgreesBelow bound (guarded bound _) _)

/-- A value is read over the rules `inner` themselves. -/
theorem value_eq (text : Text) : value text = valueOver inner text := by
  rw [value_guarded]
  exact AgreesBelow.agree (Nat.lt_succ_self text.length)

/-- Declarations are read over the rules `inner` themselves. -/
theorem declarations_eq (text : Text) : declarations text = declarationsOver inner text := by
  rw [declarations_guarded]
  exact AgreesBelow.agree (Nat.lt_succ_self text.length)

end HclSyntax.Grammar
