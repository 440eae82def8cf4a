import HclSyntax.Proofs.Node.Lines
import HclSyntax.Proofs.RoundTrip.Elements
import HclSyntax.Proofs.RoundTrip.Settled

/-!
# `HclSyntax.Proofs.RoundTrip.Told`: what tells a printed tree from others

`Faithful` says of the value of a property that the rules for type constraints and for labels do not
take it. `opensType` and `opensBody` say so of the value itself: `opensType` looks at the word that it
starts with, and where that is the word of a collection or object type at the argument behind it, and
`opensBody` looks at the minus signs in front of a brace. Both are careful: where one of them is `true`
the value may still be told from a type or a label. `Told` is `Faithful` with the two in place of what the
rules do, and without what `Node.settled` sees to. It can be decided.

Both look at the first operand of the printed terms, behind their signs: `AreTerms.leads`.
-/

set_option autoImplicit false

namespace HclSyntax.Grammar

/-- The words that a type constraint has in front of a parenthesis. -/
def typeCalls : List Text :=
  ["map".toList, "object".toList, "list".toList, "set".toList, "tuple".toList]

/-- Whether a text starts with the word for a primitive type, which does not go on with the characters
behind it. -/
def opensPrimitive (text : Text) : Bool :=
  primitiveWords.any fun word => (word.isPrefixOf? text).any fun rest => !rest.head?.any isNameChar

end HclSyntax.Grammar

namespace HclSyntax.Node

open Grammar

mutual

/-- Whether the printed form of a value may start with a type constraint: with the name of a primitive
type, with a tuple type, or with a collection or object type whose parts are of this kind. -/
def opensType : Node → Bool
  | .string content => primitiveWords.contains content
  | .unquotedString text => typeCalls.contains text || opensPrimitive text
  | .unquotedExpression (term :: _) => opensType term
  | .function (some name) arguments =>
    decide (name = "tuple".toList) || opensPrimitive name || match arguments with
      | [] => false
      | argument :: _ =>
        if name = "object".toList then opensMembers argument
        else (CollectionType.ofWord? name).isSome && opensType argument
  | _ => false

/-- Whether the printed form of a value may start with the members of an object type. -/
def opensMembers : Node → Bool
  | .unquotedExpression (term :: _) => opensMembers term
  | .map entries => entriesOpen entries
  | .forLoop _ => true
  | _ => false

/-- Whether the entries of a map may be members, up to the first one that is none. -/
def entriesOpen : List Node → Bool
  | [] => true
  | entry :: rest => if entry.isMember then entriesOpen rest else opensMember entry

/-- Whether an entry of a map that is no member may start like one. -/
def opensMember : Node → Bool
  | .property _ _ value => opensType value
  | _ => false

end

/-- Whether a node is printed with a brace in front. -/
def opensBrace : Node → Bool
  | .map _ => true
  | .forLoop loop => loop.opening == '{'
  | _ => false

/-- Whether a brace stands behind nothing but minus signs, which a block could have as its label. -/
def opensBody : List Node → Bool
  | [] => false
  | term :: rest => term.isMinus && (rest.head?.any opensBrace || opensBody rest)

end HclSyntax.Node

namespace HclSyntax.Grammar

open Node

/-- The printed form of a node of a settled tree tells the node from others. -/
def Told (compact : Bool) : Node → Prop
  | .block header _ => HeaderEnds header
  | .comment _ _ => compact = false
  | .string content => content.sequencesEnd = true
  | .unquotedExpression terms =>
    compact = false → ∀ term ∈ terms.dropLast, term.endsInHeredoc = true → term.isHeredoc = true
  | .list elements => elementsStartFor compact elements = false
  | .map entries => entries.head?.any startsFor = false
  | .function _ arguments =>
    compact = false → onOneLine arguments = true →
      ∀ argument ∈ arguments.dropLast, argument.endsInHeredoc = false
  | .property kind name value =>
    NameEnds name ∧ (kind ≠ .type → opensType value = false ∧ opensBody value.terms = false)
  | _ => True

instance (compact : Bool) : DecidablePred (Told compact)
  | .block header _ => inferInstanceAs (Decidable (HeaderEnds header))
  | .comment _ _ | .string _ | .list _ | .map _ => inferInstanceAs (Decidable (_ = _))
  | .unquotedExpression _ | .function _ _ => inferInstanceAs (Decidable (_ → _))
  | .property _ _ _ => inferInstanceAs (Decidable (_ ∧ _))
  | .root _ | .multilineComment _ | .unquotedString _ | .numberOrBool _ | .mathSymbol _ | .forLoop _
  | .heredoc _ | .primitiveType _ _ | .objectType _ | .collectionType _ _ | .tupleType _ =>
    .isTrue trivial

/-! ### How operands start -/

/-- A map or a for expression in braces is printed with a brace first. -/
theorem form_of_opensBrace {layout : Layout} {node : Node} (h : opensBrace node = true) :
    ∃ tail, valueForm layout node = '{' :: tail := by
  cases node with
  | map => exact bodyForm_starts _
  | forLoop loop =>
    have opening : loop.opening = '{' := beq_iff_eq.mp h
    exact ⟨_, congrArg (· :: _) opening⟩
  | _ => cases h

/-- The marks that only some operands start with. -/
structure OpensAs (node : Node) (c : Char) : Prop where
  string : c = '"' → ∃ content, node = .string content
  group : c = '(' → ∃ arguments, node = .function none arguments
  brace : c = '{' → opensBrace node = true

/-- Behind another character nothing needs to be said. -/
theorem OpensAs.of_apart {node : Node} {c : Char} (apart : c ≠ '"' ∧ c ≠ '(' ∧ c ≠ '{') :
    OpensAs node c :=
  ⟨fun same => absurd same apart.1, fun same => absurd same apart.2.1,
    fun same => absurd same apart.2.2⟩

/-- An operand starts with a mark of its own kind, or with one of no kind. -/
theorem IsOperand.opening {node : Node} (h : IsOperand node) (layout : Layout) :
    ∃ c tail, valueForm layout node = c :: tail ∧ OpensAs node c := by
  -- Most operands start with none of the three marks.
  have starts {accepts : Char → Bool} (h : StartsWith accepts (valueForm layout node))
      (apart : accepts '"' = false ∧ accepts '(' = false ∧ accepts '{' = false) :
      ∃ c tail, valueForm layout node = c :: tail ∧ OpensAs node c := by
    obtain ⟨c, tail, form, accepted⟩ := h
    refine ⟨c, tail, form, .of_apart ⟨?_, ?_, ?_⟩⟩
    all_goals
      rintro rfl
      simp [apart] at accepted
  -- The others start with a mark of their own.
  have mark {c : Char} (h : ∃ tail, valueForm layout node = c :: tail) (opens : OpensAs node c) :
      ∃ c tail, valueForm layout node = c :: tail ∧ OpensAs node c := by
    obtain ⟨tail, form⟩ := h
    exact ⟨c, tail, form, opens⟩
  cases h with
  | string =>
    exact mark ⟨_, rfl⟩ ⟨fun _ => ⟨_, rfl⟩, fun same => absurd same (by decide),
      fun same => absurd same (by decide)⟩
  | group =>
    refine mark (c := '(') ?_ ⟨fun same => absurd same (by decide), fun _ => ⟨_, rfl⟩,
      fun same => absurd same (by decide)⟩
    rw [valueForm_function, argumentsForm]
    split <;> exact ⟨_, rfl⟩
  | call isName => exact starts (isName.starts.append _) (by decide)
  | @loop loop _ brackets =>
    have opens := (by decide : ∀ pair ∈ loopBrackets, pair.1 ≠ '"' ∧ pair.1 ≠ '(') _ brackets
    exact mark ⟨_, rfl⟩ ⟨fun same => absurd same opens.1, fun same => absurd same opens.2,
      beq_iff_eq.mpr⟩
  | list => exact mark (c := '[') (listForm_starts _) (.of_apart (by decide))
  | map =>
    exact mark (c := '{') (bodyForm_starts _) ⟨fun same => absurd same (by decide),
      fun same => absurd same (by decide), fun _ => rfl⟩
  | heredoc => exact mark (c := '<') ⟨_, rfl⟩ (.of_apart (by decide))
  | numberOrBool literal =>
    rcases literal with number | boolean
    · exact starts number.starts (by decide)
    · exact starts boolean.starts (by decide)
  | unquoted plain => exact starts plain.starts (by decide)

/-! ### The first operand -/

/-- Terms are printed with some signs in front, an operand behind them, and a text behind that. -/
structure Leads (layout : Layout) (terms : List Node) (rest signs : Text) (node : Node)
    (others : List Node) (behind : Text) : Prop where
  parts : terms = signs.map (fun sign => .mathSymbol [sign]) ++ node :: others
  isSign : ∀ sign ∈ signs, sign = '!' ∨ sign = '-'
  operand : IsOperand node
  form : termsForm layout terms ++ rest = signs ++ (valueForm layout node ++ behind)
  ends : OperandEnd node behind
  /-- Behind the operand the terms end, or an accessor or operator goes on with them. -/
  goesOn : behind = rest ∨ ∃ c ∈ behind.trimStart.head?, c ≠ '{' ∧ c ≠ ')'

/-- What stands in front of an operator is white space. -/
theorem allSpace_lineBreak {layout : Layout} (terms : List Node) :
    Text.AllSpace (lineBreak layout terms) := by
  unfold lineBreak
  split <;> simp [Text.AllSpace] <;> decide

/-- A term with its signs and accessors is printed so. -/
theorem IsUnary.leads {terms : List Node} (h : IsUnary terms) (layout : Layout) {rest : Text}
    (follows : TermEnd rest) :
    ∃ signs node others behind, Leads layout terms rest signs node others behind := by
  -- Behind a sign stand fewer terms.
  induction terms with
  | nil => exact absurd rfl h.ne_nil
  | cons term others ih =>
    cases h with
    | bare operand =>
      exact ⟨[], term, [], rest, rfl, nofun, operand, by rw [termsForm_singleton]; rfl,
        follows.operandEnd term, .inl rfl⟩
    | @accessed _ text operand takes accessor index =>
      refine ⟨[], term, _, text ++ rest, rfl, nofun, operand, ?_, operandEnd_accessor takes index,
        .inr ?_⟩
      · rw [termsForm_accessor (takesAccessor_iff takes).1 accessor.isAccessor, List.append_assoc]
        rfl
      · obtain ⟨source, left, found⟩ := accessor
        rcases (accessor_shape found).2.1 with head | head <;>
          obtain ⟨tail, rfl⟩ := List.head?_eq_some_iff.mp head <;>
          rw [List.cons_append, Text.trimStart_cons (by decide)] <;>
          exact ⟨_, rfl, by decide⟩
    | @signed sign _ isSign unary =>
      obtain ⟨signs, node, more, behind, leads⟩ := ih unary
      refine ⟨sign :: signs, node, more, behind, ?_, List.forall_mem_cons.mpr ⟨isSign, leads.isSign⟩,
        leads.operand, ?_, leads.ends, leads.goesOn⟩
      · rw [leads.parts]
        rfl
      · rw [termsForm_sign unary.ne_nil, List.append_assoc, leads.form]
        rfl

/-- The terms of an expression start with an operand behind some signs. -/
theorem AreTerms.leads {multiline : Bool} {terms : List Node} (h : AreTerms multiline terms)
    (layout : Layout) {rest : Text} (follows : TermEnd rest) :
    ∃ signs node others behind, Leads layout terms rest signs node others behind := by
  cases h with
  | one unary => exact unary.leads layout follows
  | @more _ front symbol back first listed lines others =>
    obtain ⟨c, tail, starts, operates⟩ := startsOperator_of_mem listed
    have apart : ∀ c ∈ ['>', '<', '!', '=', '&', '|', '/', '*', '%', '+', '-', '?', ':'],
        isWhitespace c = false ∧ c ≠ '{' ∧ c ≠ ')' := by decide
    obtain ⟨notSpace, apart⟩ := apart c (List.contains_iff_mem.mp operates)
    -- What follows the first unit is an operator, which starts with none of the marks.
    have trims : (lineBreak layout front ++ (symbol ++ ' ' :: (termsForm layout back ++ rest))).trimStart
        = symbol ++ ' ' :: (termsForm layout back ++ rest) := by
      rw [Text.trimStart_append (allSpace_lineBreak front), starts, List.cons_append,
        Text.trimStart_cons notSpace]
    obtain ⟨signs, node, more, behind, leads⟩ :=
      first.leads layout (operator_behind listed lines (termsForm layout back ++ rest)).1
    refine ⟨signs, node, more ++ .mathSymbol symbol :: back, behind, ?_, leads.isSign, leads.operand,
      ?_, leads.ends, .inr ?_⟩
    · rw [leads.parts]
      simp
    · rw [termsForm_operator first.ne_nil others.ne_nil first.last others.head, List.append_assoc,
        List.append_assoc, List.append_assoc]
      exact leads.form
    · refine leads.goesOn.elim (fun same => ?_) id
      rw [same, trims, starts]
      exact ⟨c, rfl, apart⟩

/-- The first argument of a call stands behind the parenthesis, perhaps on a line of its own, and in
front of a comma, a line break or the closing parenthesis. -/
theorem argumentsForm_cons {layout : Layout} {argument : Node} {others : List Node}
    (element : IsElement argument) :
    ∃ (around : Layout) (space : Text) (c : Char) (tail : Text),
      around.isCompact = layout.isCompact ∧ Text.AllSpace space
      ∧ c ∈ [',', ')', '\n'] ∧ (c = ')' → tail = [])
      ∧ argumentsForm layout (forms (argumentLayout layout (argument :: others)) (argument :: others))
        = '(' :: (space ++ (valueForm around argument ++ c :: tail)) := by
  -- On one line a comma or the parenthesis follows, on lines of their own a comma or a line feed.
  cases needed : needsLines layout (argument :: others) with
  | false =>
    rw [argumentsForm_oneLine needed]
    cases others with
    | nil => exact ⟨layout, [], ')', [], rfl, Text.allSpace_nil, by decide, fun _ => rfl, rfl⟩
    | cons next rest =>
      refine ⟨layout, [], ',', ' ' :: Text.join [',', ' '] ((next :: rest).map (valueForm layout))
        ++ [')'], rfl, Text.allSpace_nil, by decide, fun same => absurd same (by decide), ?_⟩
      simp [Text.join]
  | true =>
    have block : layout.isCompact = false := by
      rw [needsLines_eq, Bool.and_eq_true, Bool.not_eq_true'] at needed
      exact needed.1
    have space : Text.AllSpace ('\n' :: layout.nested.margin) :=
      IsBreak.allSpace (.inr ⟨_, rfl, allSpace_margin _⟩)
    rw [argumentsForm_lines needed]
    cases others with
    | nil =>
      refine ⟨layout.nested, _, '\n', layout.margin ++ [')'], Layout.isCompact_nested _, space, by decide,
        fun same => absurd same (by decide), ?_⟩
      simp [forms, withCommas, Text.join, element.margin, closingBreak, block]
    | cons next rest =>
      have first : withCommas layout.nested (forms layout.nested (argument :: next :: rest))
          = (layout.nested.margin ++ valueForm layout.nested argument ++ commaBehind argument)
            :: withCommas layout.nested (forms layout.nested (next :: rest)) := by
        rw [← element.margin]
        rfl
      obtain ⟨more, others⟩ : ∃ more,
          (withCommas layout.nested (forms layout.nested (next :: rest))).flatMap (['\n'] ++ ·)
            = '\n' :: more := by
        cases rest <;> exact ⟨_, rfl⟩
      rw [first, Text.join_cons, others]
      unfold commaBehind
      split
      · exact ⟨layout.nested, _, '\n', more ++ (closingBreak layout ++ [')']), Layout.isCompact_nested _,
          space, by decide, fun same => absurd same (by decide), by simp⟩
      · exact ⟨layout.nested, _, ',', '\n' :: more ++ (closingBreak layout ++ [')']),
          Layout.isCompact_nested _, space, by decide, fun same => absurd same (by decide), by simp⟩

end HclSyntax.Grammar
