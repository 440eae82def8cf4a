import HclSyntax.Proofs.LineBreak.Expression

/-!
# `HclSyntax.Proofs.LineBreak.Declaration`: declarations and a line feed at the end of the text

A block body makes a fault of everything that does not end with its brace, so blocks are the same in
front of a line feed. A property falters where its value is stranded. No other form of declaration is
read there, and a value that can be no expression is no list, map or for expression either. So a
declaration falters only in front of a stranded value, or where it leaves an expression stuck
(`wavers_declaration`).

`wavers_inner` is the induction over brackets within brackets.
-/

set_option autoImplicit false

set_option synthInstance.maxSize 100000

namespace HclSyntax.Grammar

open Rule

variable {bound : Nat}

/-! ### Blocks -/

section Blocks

variable (hdeclarations : Wavers Never Leftover bound inner.declarations)

include hdeclarations

/-- A line feed makes no difference to the body of a block. -/
theorem steady_blockBody : Steady (bound + 1) (blockBody inner) := by
  have inside : Wavers (fun _ => True) Never bound (bodyEnd inner) :=
    (hdeclarations.mono (fun _ => False.elim) fun _ => id).bind (fun _ => Steady.weaken _)
      (fun _ => False.elim) fun _ ⟨_, _, start, notBrace⟩ => by
        refine (Mismatches.behind (whitespace_apply _) (Mismatches.bind ?_ _)).refuses.falters trivial
        rw [start]
        exact mismatches_char_iff.mpr (by simpa using notBrace)
  have : Steady bound (body (bodyEnd inner)) := steady_body inside
  have : Steady (bound + 1) (char '{' >>= fun _ => body (bodyEnd inner)) :=
    Steady.taken fun found => Consumes.shortens found
  rw [blockBody_eq]
  infer_instance

/-- The four kinds of blocks end with their closing bracket, so a line feed makes no difference to
them. -/
theorem steady_blocks : Steady (bound + 1) (namedBlock inner)
    ∧ Steady (bound + 1) (functionDeclaration inner) ∧ Steady (bound + 1) (labelledBlock inner)
    ∧ Steady (bound + 1) (typedBlock inner) := by
  have := steady_blockBody hdeclarations
  refine ⟨?_, ?_, ?_, ?_⟩
  · unfold namedBlock
    infer_instance
  · exact steady_keyword (by decide) fun _ => ⟨[], rfl⟩
  · unfold labelledBlock
    infer_instance
  · unfold typedBlock
    infer_instance

end Blocks

/-! ### Properties -/

/-- A name and an equals sign stand in front of a stranded value. -/
def StrandedProperty (text : Text) : Prop :=
  ∃ name behind value, AssignsStranded text name behind value

/-- A property falters where its value does. -/
theorem wavers_property {next : Name → Rule Node}
    (h : ∀ name, Wavers Stranded Halted bound (next name)) :
    Wavers StrandedProperty Halted bound
      (propertyName >>= fun name => equals >>= fun _ => next name) := by
  have values (name : Name) : Wavers (fun behind => ∃ value, equals behind = .matched () value
      ∧ Stranded value) Halted bound (equals >>= fun _ => next name) :=
    Wavers.behind (fun _ => h name) fun assigns stranded => ⟨_, assigns, stranded⟩
  exact Wavers.behind values fun named ⟨value, assigns, stranded⟩ =>
    ⟨_, _, value, named, assigns, stranded⟩

/-- A look ahead that is the same in front of a line feed changes nothing. -/
theorem wavers_followedBy {α β : Type} {look : Rule α} [Steady bound look] {next : Rule β}
    {late stuck : Text → Prop} (h : Wavers late stuck bound next) :
    Wavers late stuck bound (followedBy look >>= fun _ => next) := by
  refine Wavers.behind (fun _ => h) fun found hlate => ?_
  rwa [(followedBy_matched_iff.mp found).2]

/-- No term starts at a brace with the keyword at the end of the text. -/
theorem mismatches_unaryOperand_keyword {rest : Text} (h : forKeyword rest = .matched () ['\n']) :
    (unaryOperand inner).Mismatches ('{' :: rest) := by
  -- The keyword makes it no map, and nothing stands behind it that could be bound.
  have noLoop : forObject.Mismatches ('{' :: rest) :=
    Mismatches.behind (char_cons '{' rest) (Mismatches.behind h
      (Mismatches.behind (whitespace_apply _) ⟨[], rfl⟩))
  have noMap : (map inner).Mismatches ('{' :: rest) :=
    Mismatches.behind (char_cons '{' rest) (Mismatches.bind
      (mismatches_notFollowedBy_iff.mpr ⟨(), _, h⟩) _)
  refine mismatches_unaryOperand_of ?_ (mismatches_signedOperand (by simp))
  refine operand_eq ▸ mismatches_orElse_iff.mpr
    ⟨mismatches_functionCall (mismatches_callStart ((Text.stops_cons ..).mpr (by decide))), ?_⟩
  refine mismatches_orElse_iff.mpr ⟨mismatches_parenthesized (by simp), ?_⟩
  refine mismatches_orElse_iff.mpr ⟨noLoop.bind _, ?_⟩
  refine mismatches_orElse_iff.mpr ⟨mismatches_forList (by simp), ?_⟩
  refine mismatches_orElse_iff.mpr ⟨mismatches_list (by simp), ?_⟩
  exact mismatches_orElse_iff.mpr ⟨noMap, mismatches_heredocTerm (by decide)⟩

/-- A look ahead for a for expression in braces finds the keyword at the end of the text only behind
the line feed, and there no term is read. -/
theorem wavers_forBrace {late stuck : Text → Prop} {terms : Rule Node} (h : Wavers late stuck bound terms)
    (noTerm : ∀ text, (unaryOperand inner).Mismatches text → terms.Mismatches text) :
    Wavers late stuck bound
      (followedBy (char '{' >>= fun _ => forKeyword) >>= fun _ => terms) := by
  refine ⟨fun {text broken} short hbroken => ?_⟩
  have blocked {text : Text} (mismatch : (char '{' >>= fun _ => forKeyword).Mismatches text) :
      (followedBy (char '{' >>= fun _ => forKeyword) >>= fun _ => terms).Mismatches text :=
    Mismatches.bind (mismatches_followedBy_iff.mpr mismatch) fun _ => terms
  have passed {rest after : Text} (found : forKeyword rest = .matched () after) :
      (followedBy (char '{' >>= fun _ => forKeyword) >>= fun _ => terms) ('{' :: rest)
        = terms ('{' :: rest) :=
    bind_of_matched (show followedBy _ ('{' :: rest) = .matched () ('{' :: rest) from
      followedBy_matched_iff.mpr ⟨⟨(), after, (bind_of_matched (char_cons '{' rest)).trans found⟩, rfl⟩)
  -- The line feed may be the white space that the word `for` needs, and then no term starts there.
  by_cases brace : text.head? = some '{'
  · obtain ⟨rest, rfl⟩ := List.head?_eq_some_iff.mp brace
    obtain ⟨more, rfl, hmore⟩ := hbroken.cons
    rcases forKeyword_broken hmore with (⟨_, _, taken, again⟩ | ⟨mismatch, still⟩) | ⟨-, mismatch, last⟩
    · rw [passed taken, passed again]
      exact h.follows short hbroken
    · exact (blocked (mismatch.behind (char_cons '{' rest))).follows
        (blocked (still.behind (char_cons '{' more)))
    · obtain ⟨place, gaveUp⟩ := noTerm _ (mismatches_unaryOperand_keyword last)
      exact (blocked (mismatch.behind (char_cons '{' rest))).follows
        ⟨place, (passed last).trans gaveUp⟩
  · have noBrace : broken.head? ≠ some '{' := by
      cases text with
      | nil => rcases hbroken.nil with rfl | rfl <;> decide
      | cons c rest =>
        obtain ⟨more, rfl, -⟩ := hbroken.cons
        simpa using brace
    exact (blocked (Mismatches.bind (mismatches_char_iff.mpr brace) _)).follows
      (blocked (Mismatches.bind (mismatches_char_iff.mpr noBrace) _))

section Terms

variable (hvalue : Wavers Stranded Halted bound inner.value)
  (hdeclarations : Wavers Never Leftover bound inner.declarations)

include hvalue hdeclarations

/-- The value of a property that is an expression falters where the expression does. -/
theorem wavers_terms (name : Name) :
    Wavers Stranded Halted (bound + 1)
      (expressionTerms inner false >>= fun terms => pure (propertyOfTerms name terms)) :=
  (wavers_expressionTerms hvalue hdeclarations false).map _

/-- The start of a call is found in front of a line feed exactly where it is found without. -/
theorem wavers_functionProperty :
    Wavers StrandedProperty Halted (bound + 1) (functionProperty inner) := by
  refine wavers_property fun name => ?_
  exact wavers_followedBy (wavers_terms hvalue hdeclarations name)

/-- The keyword of a for expression may be found in front of a line feed only, but then no term is. -/
theorem wavers_forObjectProperty :
    Wavers StrandedProperty Halted (bound + 1) (forObjectProperty inner) := by
  refine wavers_property fun name => ?_
  refine wavers_forBrace (wavers_terms hvalue hdeclarations name) fun text none => ?_
  exact (none.bind _).bind _

/-- A property with any expression falters where its expression does. -/
theorem wavers_unquotedProperty :
    Wavers StrandedProperty Halted (bound + 1) (unquotedProperty inner) := by
  refine wavers_property fun name => ?_
  exact wavers_terms hvalue hdeclarations name

end Terms

/-! ### Declarations -/

/-- A property with any expression, or what is tried behind it. -/
def expressionDeclaration : Rule Node :=
  unquotedProperty inner <|> listProperty inner <|> mapProperty inner <|> heredocProperty <|> comment
    <|> forListProperty

/-- A block with labels or a scalar, or what is tried behind them. -/
def labelledDeclaration : Rule Node :=
  functionDeclaration inner <|> labelledBlock inner <|> typedBlock inner <|> scalarProperty
    <|> expressionDeclaration

/-- The kinds of declarations in groups, in the order in which they are tried. -/
theorem declaration_eq : declaration inner = (namedBlock inner <|> typedProperty
    <|> functionProperty inner <|> forObjectProperty inner <|> labelledDeclaration) := rfl

namespace StrandedProperty

variable {text : Text} (h : StrandedProperty text)

include h

/-- The text starts with a name. -/
theorem starts : ∃ c rest, text = c :: rest ∧ startsName c = true := by
  obtain ⟨_, _, _, h⟩ := h
  exact h.starts

/-- No comment stands in place of the name. -/
theorem mismatches_comment : comment.Mismatches text := by
  obtain ⟨_, _, _, h⟩ := h
  exact h.comment

/-- No for expression stands in place of the stranded value. -/
theorem mismatches_forObjectProperty : (forObjectProperty inner).Mismatches text := by
  obtain ⟨_, _, value, h⟩ := h
  refine h.property fun name => ?_
  rcases answers (followedBy (char '{' >>= fun _ => forKeyword)) value with none | ⟨_, _, found⟩
  · exact none.bind _
  · obtain rfl := (followedBy_matched_iff.mp found).2
    exact Mismatches.behind found ((h.stranded.expressionTerms false).bind _)

/-- No block is declared there, and no label stands in front of the equals sign. -/
theorem refuses_labelledDeclaration : labelledDeclaration.Refuses text := by
  obtain ⟨name, behind, value, h⟩ := h
  have noScalar : scalarProperty.Mismatches text := h.property fun _ => h.stranded.scalar.bind _
  have noProperty : (unquotedProperty inner).Mismatches text :=
    h.property fun _ => (h.stranded.expressionTerms false).bind _
  have noValue : expressionDeclaration.Mismatches text := by
    obtain ⟨noList, noMap, noHeredoc, noLoop⟩ := mismatches_behind_unquoted noProperty
    simp only [expressionDeclaration, mismatches_orElse_iff]
    exact ⟨noProperty, noList, noMap, noHeredoc, h.comment, noLoop⟩
  exact h.functionDeclaration.orElse (h.labelledBlock.orElse (h.typedBlock.orElse
    (noScalar.refuses.orElse noValue.refuses)))

end StrandedProperty

section Sequence

variable (hvalue : Wavers Stranded Halted bound inner.value)
  (hdeclarations : Wavers Never Leftover bound inner.declarations)

include hvalue hdeclarations

/-- A declaration falters only where it is a property and its value does. -/
theorem wavers_declaration : Wavers StrandedProperty Halted (bound + 1) (declaration inner) := by
  obtain ⟨named, functions, labelled, typed⟩ := steady_blocks hdeclarations
  have : Steady (bound + 1) typedProperty := inferInstanceAs (Steady _ (assigned .type typeConstraint))
  have : Steady (bound + 1) scalarProperty := inferInstanceAs (Steady _ (assigned .string scalar))
  -- From the last alternative up: behind each property that may falter nothing else matches.
  have expressions : Wavers StrandedProperty Halted (bound + 1) expressionDeclaration := by
    refine Wavers.congr ?_ (alike_behind_unquoted inner)
    refine Wavers.orElse (wavers_unquotedProperty hvalue hdeclarations) (Steady.weaken comment) ?_
    exact fun _ _ h => h.mismatches_comment.refuses.falters h
  have labels : Wavers StrandedProperty Halted (bound + 1) labelledDeclaration :=
    expressions.otherwise.otherwise.otherwise.otherwise
  have objects : Wavers StrandedProperty Halted (bound + 1)
      (forObjectProperty inner <|> labelledDeclaration) :=
    Wavers.orElse (wavers_forObjectProperty hvalue hdeclarations) labels
      fun _ _ h => h.refuses_labelledDeclaration.falters h
  have calls : Wavers StrandedProperty Halted (bound + 1)
      (functionProperty inner <|> forObjectProperty inner <|> labelledDeclaration) :=
    Wavers.orElse (wavers_functionProperty hvalue hdeclarations) objects fun _ _ h =>
      (h.mismatches_forObjectProperty.refuses.orElse h.refuses_labelledDeclaration).falters h
  exact declaration_eq ▸ calls.otherwise.otherwise

end Sequence

/-! ### Sequences -/

section Sequence

variable (hvalue : Wavers Stranded Halted bound inner.value)
  (hdeclarations : Wavers Never Leftover bound inner.declarations)

include hvalue hdeclarations

/-- A declaration falters where the value of its property is stranded. -/
theorem wavers_declarationItem :
    Wavers (fun text => StrandedProperty text.trimStart) Halted (bound + 1)
      (declarationItem inner) := by
  refine Wavers.spaced ((wavers_declaration hvalue hdeclarations).bind (fun _ => Steady.weaken _)
    (fun _ => False.elim) fun {_ _ rest} _ stuck => ?_)
  have noSeparator : optional (whitespace >>= fun _ => oneOf [',', ';']) rest = .matched none rest :=
    optional_of_stuck stuck (by decide)
  rw [bind_of_matched noSeparator]
  exact stuck

/-- Declarations never falter without leaving something of the text. -/
theorem wavers_declarationsOver : Wavers Never Leftover (bound + 1) (declarationsOver inner) := by
  rw [declarationsOver_eq]
  refine ((wavers_declarationItem hvalue hdeclarations).many fun rest stuck => ?_).mono (fun _ => id) ?_
  · refine Refuses.behind fun _ behind space => ?_
    obtain rfl := whitespace_matched_iff.mp space
    exact stuck.refuses_declaration.bind _
  · rintro rest (stuck | stranded)
    · obtain ⟨c, tail, start, listed⟩ := stuck.starts
      exact ⟨c, tail, start, fun same => absurd (same ▸ listed) (by decide)⟩
    · obtain ⟨c, tail, start, starts⟩ := stranded.starts
      exact ⟨c, tail, start, fun same => absurd (same ▸ starts) (by decide)⟩

end Sequence

/-- Values falter only where they are stranded or get stuck, and declarations only where they leave
something of the text. -/
theorem wavers_inner (bound : Nat) :
    Wavers Stranded Halted bound inner.value ∧ Wavers Never Leftover bound inner.declarations := by
  induction bound with
  | zero => exact ⟨⟨fun short => absurd short (Nat.not_lt_zero _)⟩,
      ⟨fun short => absurd short (Nat.not_lt_zero _)⟩⟩
  | succ bound ih =>
    obtain ⟨hvalue, hdeclarations⟩ := ih
    refine ⟨⟨fun {text broken} short hbroken => ?_⟩, ⟨fun {text broken} short hbroken => ?_⟩⟩
    · show (value text).Follows _ _ (value broken)
      rw [value_eq, value_eq]
      exact (wavers_valueOver hvalue hdeclarations).follows short hbroken
    · show (declarations text).Follows _ _ (declarations broken)
      rw [declarations_eq, declarations_eq]
      exact (wavers_declarationsOver hvalue hdeclarations).follows short hbroken

end HclSyntax.Grammar
