import HclSyntax.Proofs.RoundTrip.Untyped

/-!
# `HclSyntax.Proofs.RoundTrip.Unlabelled`: values that are no label with a body

A block with a label may have an equals sign in front of the label, so the rule for it goes on with the
value of a property. The label would be a string, a run of the characters of names or such a run in
parentheses, and a brace would stand behind it. `AreTerms.behindName` says where a run ends that starts with
a value: it leaves what follows the value, or stops in front of a character of the value, and only behind
nothing but minus signs is this a brace. So a value that `Node.opensBody` turns down is `Unlabelled`
(`unlabelled_of_opensBody`).
-/

set_option autoImplicit false

namespace HclSyntax.Grammar

open Rule Node

variable {layout : Layout} {compact : Bool}

/-! ### Behind a name -/

/-- What is left of a text behind the characters of names at its front. -/
def behindName (text : Text) : Text :=
  text.dropWhile isNameChar

/-- A character of names is passed over. -/
theorem behindName_cons {c : Char} (nameChar : isNameChar c = true) (rest : Text) :
    behindName (c :: rest) = behindName rest :=
  List.dropWhile_cons_of_pos nameChar

/-- Any other character ends the run. -/
theorem behindName_of_head {c : Char} (other : isNameChar c = false) (rest : Text) :
    behindName (c :: rest) = c :: rest :=
  List.dropWhile_cons_of_neg (by simp [other])

/-- A number or boolean is made of characters of names and plus signs. -/
theorem chars_of_literal {text : Text} (h : IsNumber text ∨ IsBoolean text) :
    ∀ c ∈ text, isNameChar c = true ∨ c = '+' := by
  intro c hc
  rcases h with number | boolean
  · have numberChar := isNumberChar_of_shape (isNumber_iff.mp number) c hc
    simp only [isNumberChar, continuesNumber, Bool.or_eq_true, beq_iff_eq] at numberChar
    simp only [isNameChar, Bool.or_eq_true, beq_iff_eq]
    tauto
  · have letter := isAlphabetic_of_isBoolean boolean c hc
    exact .inl (by simp [isNameChar, isAlphanumeric_of_isAlphabetic letter])

/-- A run of the characters of names goes over all of a text or stops at one of its characters. -/
theorem behindName_append (text rest : Text) :
    (∃ c tail, c ∈ text ∧ isNameChar c = false ∧ behindName (text ++ rest) = c :: tail)
      ∨ behindName (text ++ rest) = behindName rest := by
  induction text with
  | nil => exact .inr rfl
  | cons c text ih =>
    cases nameChar : isNameChar c with
    | true =>
      rw [List.cons_append, behindName_cons nameChar]
      refine ih.imp_left ?_
      rintro ⟨d, tail, mem, stops⟩
      exact ⟨d, tail, List.mem_cons_of_mem _ mem, stops⟩
    | false => exact .inl ⟨c, _, List.mem_cons_self, nameChar, behindName_of_head nameChar _⟩

/-- An identifier leaves what is behind its name, or stands in parentheses. -/
theorem identifier_left {text name rest : Text} (h : identifier text = .matched name rest) :
    StartsWith isNameChar text ∧ rest = behindName text
      ∨ ∃ inside, StartsWith isNameChar inside ∧ behindName inside = ')' :: rest
        ∧ text = '(' :: inside := by
  -- A run of name characters takes all of them.
  have run {text name rest : Text} (found : takeWhile1 isNameChar text = .matched name rest) :
      StartsWith isNameChar text ∧ rest = behindName text := by
    obtain ⟨rfl, nonempty, all, stops⟩ := takeWhile1_matched_iff.mp found
    obtain ⟨c, more, rfl⟩ := List.exists_cons_of_ne_nil nonempty
    exact ⟨⟨c, more ++ rest, rfl, all c List.mem_cons_self⟩,
      (Text.dropWhile_append_of_stops all stops).symm⟩
  rcases orElse_matched_iff.mp h with bare | ⟨-, parenthesized⟩
  · exact .inl (run bare)
  · simp only [bind_matched_iff, char_matched_iff, pure_matched_iff] at parenthesized
    obtain ⟨_, inside, ⟨rfl, -⟩, word, left, found, _, _, ⟨rfl, -⟩, -, rfl⟩ := parenthesized
    obtain ⟨starts, same⟩ := run found
    exact .inr ⟨inside, starts, same.symm, rfl⟩

/-! ### Values -/

/-- A run of the characters of names in an operand stops at a character that is no white space and closes
nothing, and is a brace only where the operand starts with it; or it leaves what follows. -/
theorem IsOperand.behindName {node : Node} (h : IsOperand node) {behind : Text}
    (ends : OperandEnd node behind) :
    (∃ c tail, Grammar.behindName (valueForm layout node ++ behind) = c :: tail
        ∧ isWhitespace c = false ∧ c ≠ ')' ∧ (c = '{' → opensBrace node = true))
      ∨ Grammar.behindName (valueForm layout node ++ behind) = behind := by
  -- Most operands start with a character of their own, at which no name does.
  have mark {c : Char} (other : isNameChar c = false ∧ isWhitespace c = false ∧ c ≠ ')')
      (brace : c = '{' → opensBrace node = true) (starts : ∃ tail, valueForm layout node = c :: tail) :
      ∃ c tail, Grammar.behindName (valueForm layout node ++ behind) = c :: tail
        ∧ isWhitespace c = false ∧ c ≠ ')' ∧ (c = '{' → opensBrace node = true) := by
    obtain ⟨tail, starts⟩ := starts
    rw [starts]
    exact ⟨c, tail ++ behind, behindName_of_head other.1 _, other.2.1, other.2.2, brace⟩
  have noBrace {c : Char} (apart : c ≠ '{') : c = '{' → opensBrace node = true :=
    fun brace => absurd brace apart
  cases h with
  | @call name arguments isName =>
    have chars : ∀ c ∈ name, isCallChar c = true := by
      obtain ⟨text, rest, found⟩ := isName
      exact (functionName_shape found).2.2.1
    obtain ⟨inside, starts⟩ : ∃ inside, valueForm layout (.function (some name) arguments)
        = name ++ '(' :: inside := by
      rw [valueForm_function, argumentsForm]
      split <;> exact ⟨_, rfl⟩
    rw [starts, List.append_assoc, List.cons_append]
    rcases behindName_append name ('(' :: (inside ++ behind)) with ⟨c, tail, mem, -, stops⟩ | stops
    · have callChar := chars c mem
      refine .inl ⟨c, tail, stops, isWhitespace_of_isCallChar callChar, ?_, ?_⟩
      all_goals
        rintro rfl
        exact absurd callChar (by decide)
    · exact .inl ⟨'(', _, stops.trans (behindName_of_head (by decide) _), by decide,
        by decide, noBrace (by decide)⟩
  | group =>
    refine .inl (mark (c := '(') (by decide) (noBrace (by decide)) ?_)
    rw [valueForm_function, argumentsForm]
    split <;> exact ⟨_, rfl⟩
  | @loop loop _ brackets =>
    have opens := (by decide : ∀ pair ∈ loopBrackets,
      isNameChar pair.1 = false ∧ isWhitespace pair.1 = false ∧ pair.1 ≠ ')')
    exact .inl (mark (opens _ brackets) (fun brace => beq_iff_eq.mpr brace) ⟨_, rfl⟩)
  | list => exact .inl (mark (c := '[') (by decide) (noBrace (by decide)) (listForm_starts _))
  | map => exact .inl (mark (c := '{') (by decide) (fun _ => rfl) (bodyForm_starts _))
  | heredoc => exact .inl (mark (c := '<') (by decide) (noBrace (by decide)) ⟨_, rfl⟩)
  | string => exact .inl (mark (c := '"') (by decide) (noBrace (by decide)) ⟨_, rfl⟩)
  | @numberOrBool text literal =>
    rcases behindName_append text behind with ⟨c, tail, mem, other, stops⟩ | stops
    · obtain rfl : c = '+' := (chars_of_literal literal c mem).resolve_left (by simp [other])
      exact .inl ⟨'+', tail, stops, by decide, by decide, noBrace (by decide)⟩
    · exact .inr (stops.trans (Text.dropWhile_of_stops (LiteralEnd.isNameChar ends)))
  | @unquoted text plain =>
    rcases dropWhile_plain (by decide : isNameChar '[' = false) plain.startsPlain behind with
      ⟨c, tail, stops, isText⟩ | stops
    · have apart : isWhitespace c = false ∧ c ≠ ')' ∧ c ≠ '{' := by
        simp only [Bool.or_eq_true, beq_iff_eq, isTextChar_iff] at isText
        rcases isText with ⟨listed, notSpace⟩ | rfl
        · refine ⟨notSpace, ?_, ?_⟩
          all_goals
            rintro rfl
            exact listed (by decide)
        · decide
      exact .inl ⟨c, tail, stops, apart.1, apart.2.1, noBrace apart.2.2⟩
    · exact .inr (stops.trans (Text.dropWhile_of_stops (TermEnd.stops ends (by decide))))

/-- A run of the characters of names goes over minus signs, and stops at the other one. -/
theorem behindName_signs {signs : Text} (isSign : ∀ sign ∈ signs, sign = '!' ∨ sign = '-') (rest : Text) :
    (∃ tail, behindName (signs ++ rest) = '!' :: tail)
      ∨ (∀ sign ∈ signs, sign = '-') ∧ behindName (signs ++ rest) = behindName rest := by
  induction signs with
  | nil => exact .inr ⟨nofun, rfl⟩
  | cons sign signs ih =>
    obtain ⟨here, others⟩ := List.forall_mem_cons.mp isSign
    rcases here with rfl | rfl
    · exact .inl ⟨_, behindName_of_head (by decide) _⟩
    · rw [List.cons_append, behindName_cons (by decide)]
      exact (ih others).imp_right fun ⟨minus, same⟩ => ⟨List.forall_mem_cons.mpr ⟨rfl, minus⟩, same⟩

/-- Minus signs in front of a brace may be a label with a body. -/
theorem opensBody_of_signs {signs : Text} {node : Node} {others : List Node}
    (minus : ∀ sign ∈ signs, sign = '-') (nonempty : signs ≠ []) (brace : opensBrace node = true) :
    opensBody (signs.map (fun sign => .mathSymbol [sign]) ++ node :: others) = true := by
  induction signs with
  | nil => exact absurd rfl nonempty
  | cons sign signs ih =>
    obtain ⟨rfl, others⟩ := List.forall_mem_cons.mp minus
    cases signs with
    | nil => simp [opensBody, isMinus, brace]
    | cons next signs =>
      rw [List.map_cons, List.cons_append, opensBody, ih others (List.cons_ne_nil _ _), Bool.or_true]
      rfl

/-- A run of the characters of names in some terms leaves what follows them, or goes over to a character
that closes nothing, and is a brace only behind minus signs or at the front. -/
theorem AreTerms.behindName {multiline : Bool} {terms : List Node} (h : AreTerms multiline terms)
    {rest : Text} (follows : TermEnd rest) :
    Grammar.behindName (termsForm layout terms ++ rest) = rest
      ∨ ∃ c ∈ (Grammar.behindName (termsForm layout terms ++ rest)).trimStart.head?, c ≠ ')'
        ∧ (c = '{' → opensBody terms = true ∨ terms.head?.any opensBrace = true) := by
  obtain ⟨signs, node, others, behind, leads⟩ := h.leads layout follows
  rw [leads.form]
  -- The run may go on over minus signs, over the first operand, and over all that is printed.
  rcases behindName_signs leads.isSign (valueForm layout node ++ behind) with
    ⟨tail, stops⟩ | ⟨minus, stops⟩
  · rw [stops, Text.trimStart_cons (by decide)]
    exact .inr ⟨'!', rfl, by decide, fun same => absurd same (by decide)⟩
  rw [stops]
  rcases leads.operand.behindName leads.ends with ⟨c, tail, stops, notSpace, open', brace⟩ | stops
  · rw [stops, Text.trimStart_cons notSpace]
    refine .inr ⟨c, rfl, open', fun same => ?_⟩
    rw [leads.parts]
    by_cases nonempty : signs = []
    · subst nonempty
      exact .inr (by simpa using brace same)
    · exact .inl (opensBody_of_signs minus nonempty (brace same))
  · rw [stops]
    refine leads.goesOn.imp_right ?_
    rintro ⟨c, head, apart, open'⟩
    exact ⟨c, head, open', fun same => absurd same apart⟩

/-! ### Labels -/

/-- A name in parentheses at the front of a group is all of it. -/
theorem group_of_parenthesized {arguments : List Node}
    (elements : ∀ argument ∈ arguments, IsElement argument) {behind inside rest : Text}
    (shape : valueForm layout (.function none arguments) ++ behind = '(' :: inside)
    (starts : StartsWith isNameChar inside) (closes : behindName inside = ')' :: rest) :
    rest = behind := by
  obtain ⟨first, more, rfl, nameChar⟩ := starts
  rw [valueForm_function] at shape
  cases arguments with
  | nil =>
    rw [argumentsForm_oneLine (by simp [needsLines])] at shape
    obtain ⟨-, same⟩ := List.cons.inj shape
    obtain ⟨rfl, -⟩ := List.cons.inj same
    exact absurd nameChar (by decide)
  | cons argument others =>
    obtain ⟨element, -⟩ := List.forall_mem_cons.mp elements
    obtain ⟨around, space, c, tail, -, allSpace, listed, closing, form⟩ :=
      @argumentsForm_cons layout argument others element
    rw [form, Option.getD_none, List.nil_append, List.cons_append, List.append_assoc,
      List.append_assoc] at shape
    obtain ⟨-, same⟩ := List.cons.inj shape
    -- The parenthesis has a line break behind it, or the argument, or a comment.
    obtain rfl : space = [] := by
      cases space with
      | nil => rfl
      | cons d space =>
        obtain ⟨rfl, -⟩ := List.cons.inj same
        exact absurd (allSpace d List.mem_cons_self) (by simp [isWhitespace_of_isNameChar nameChar])
    rw [List.nil_append] at same
    rw [← same] at closes
    cases element with
    | comment comment =>
      obtain ⟨d, form, hash, marker⟩ : StartsWith _ (valueForm around argument) := comment.starts
      rw [hash] at same
      obtain ⟨rfl, -⟩ := List.cons.inj same
      simp only [Bool.or_eq_true, beq_iff_eq] at marker
      rcases marker with rfl | rfl <;> exact absurd nameChar (by decide)
    | @value terms areTerms =>
      have follows : TermEnd (c :: tail ++ behind) :=
        have ends : ∀ c ∈ [',', ')', '\n'], c ∈ termEnds ∧ Text.isInline c = false := by decide
        termEnd_cons (ends c listed).1 (ends c listed).2
      rw [valueForm_ofTerms] at closes
      rcases @AreTerms.behindName around _ _ areTerms _ follows with whole | ⟨d, head, open', -⟩
      · obtain ⟨rfl, rest⟩ := List.cons.inj (whole.symm.trans closes)
        rw [closing rfl] at rest
        exact rest.symm
      · rw [closes, Text.trimStart_cons (by decide)] at head
        exact absurd (Option.some.inj head).symm open'

/-- A value is no label with a body behind it. -/
theorem unlabelled_of_opensBody {value : Node} (areTerms : AreTerms false value.terms)
    (told : value.Everywhere (Told compact)) (closed : opensBody value.terms = false) :
    Unlabelled compact value := by
  intro layout _ rest follows
  have termEnd : TermEnd rest := follows.expressionEnd.1
  obtain ⟨signs, node, others, behind, leads⟩ := areTerms.leads layout termEnd
  have noBody : behind.trimStart.head? ≠ some '{' := by
    rcases leads.goesOn with rfl | ⟨c, head, apart, -⟩
    · exact follows.noBody
    · rw [Option.mem_def.mp head]
      simpa using apart
  have form : valueForm layout value ++ rest = signs ++ (valueForm layout node ++ behind) := by
    rw [← termsForm_terms, leads.form]
  obtain ⟨c, tail, starts, opens⟩ := leads.operand.opening layout
  -- No sign starts a string or stands in front of a parenthesis.
  have unsigned {d : Char} (listed : d ∈ ['"', '('])
      (head : (valueForm layout value ++ rest).head? = some d) : signs = [] ∧ c = d := by
    rw [form] at head
    cases signs with
    | nil => exact ⟨rfl, by simpa [starts] using head⟩
    | cons sign signs =>
      obtain rfl : sign = d := Option.some.inj head
      rcases leads.isSign sign List.mem_cons_self with rfl | rfl <;> exact absurd listed (by decide)
  by_cases string : (valueForm layout value ++ rest).head? = some '"'
  · obtain ⟨rfl, rfl⟩ := unsigned (by decide) string
    obtain ⟨content, rfl⟩ := opens.string rfl
    have mem : Node.string content ∈ value.terms := by simp [leads.parts]
    have ends : content.sequencesEnd = true := (everywhere_of_mem_terms told mem).here
    rw [form]
    exact Mismatches.behind (label_quote ends behind) (mismatches_blockBody noBody)
  have noQuote := mismatches_quotedString_iff.mpr string
  rcases answers identifier (valueForm layout value ++ rest) with mismatch | ⟨name, left, found⟩
  · exact Mismatches.bind (mismatches_orElse_iff.mpr ⟨noQuote, mismatch⟩) _
  refine Mismatches.behind ((orElse_of_mismatches noQuote _).trans found) (mismatches_blockBody ?_)
  rcases identifier_left found with ⟨run, rfl⟩ | ⟨inside, run, closes, shape⟩
  · rw [← termsForm_terms] at run ⊢
    rcases areTerms.behindName termEnd with same | ⟨d, head, -, brace⟩
    · rw [same]
      exact follows.noBody
    rw [Option.mem_def.mp head]
    rintro ⟨⟩
    rcases brace rfl with body | first
    · simp [closed] at body
    · -- A brace at the front is no character of a name.
      obtain ⟨d, more, same, nameChar⟩ := run
      rw [leads.form] at same
      rw [leads.parts] at first
      cases signs with
      | nil =>
        obtain ⟨inside, opening⟩ := @form_of_opensBrace layout node (by simpa using first)
        rw [opening] at same
        obtain ⟨rfl, -⟩ := List.cons.inj same
        exact absurd nameChar (by decide)
      | cons => exact absurd first (by simp [opensBrace])
  · obtain ⟨rfl, rfl⟩ := unsigned (d := '(') (by decide) (by rw [shape]; rfl)
    obtain ⟨arguments, rfl⟩ := opens.group rfl
    cases leads.operand with
    | group elements =>
      rw [form, List.nil_append] at shape
      rw [group_of_parenthesized elements shape run closes]
      exact noBody

end HclSyntax.Grammar
