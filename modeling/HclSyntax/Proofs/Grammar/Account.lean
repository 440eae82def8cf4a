import HclSyntax.Proofs.Grammar.Follow
import HclSyntax.Proofs.Grammar.Induction
import HclSyntax.Proofs.Grammar.Reading
import HclSyntax.Proofs.Grammar.Repetition
import HclSyntax.Proofs.Grammar.Shape
import HclSyntax.Proofs.Rule.Account

/-!
# `HclSyntax.Proofs.Grammar.Account`: what is read is kept

Every rule of the grammar accounts for the text it takes: a node keeps the pieces of its source in
the order in which they stand (`accounts_value`, `accounts_declarations`). The rules are taken one by
one from the leaves up, each over any rules for what stands inside brackets that account for
their text, and `inner_induction` ties the knot.
-/

set_option autoImplicit false

namespace HclSyntax.Grammar

open Rule Node

/-- The rule keeps the pieces that its node keeps. -/
abbrev KeepsNode (rule : Rule Node) : Prop :=
  rule.Accounts fun node pieces => pieces = node.pieces

/-- The rule keeps the pieces that its nodes keep, one node after the other. -/
abbrev KeepsNodes (rule : Rule (List Node)) : Prop :=
  rule.Accounts fun nodes pieces => pieces = nodes.flatMap Node.pieces

/-! ### Comments, names and literals -/

/-- A comment keeps its style and its text. -/
theorem comment_accounts : KeepsNode comment := by
  refine ⟨fun matched => ?_⟩
  rcases orElse_matched_iff.mp matched with line | ⟨-, bracketed⟩
  · obtain ⟨style, content, rfl, rfl, -, -⟩ := lineComment_matched_iff.mp line
    have covers : Covers [.comment style content] (style.marker ++ content ++ []) :=
      .single (.comment style content) rfl
    rw [List.append_nil] at covers
    exact ⟨_, _, rfl, covers, rfl⟩
  · obtain ⟨content, rfl, rfl, -⟩ := bracketedComment_matched_iff.mp bracketed
    exact ⟨_, _, rfl, .single (.multilineComment content) rfl, rfl⟩

/-- A quoted string is taken with both quotes. -/
theorem quotes_of_matched {text rest content : Text}
    (h : quotedString text = .matched content rest) :
    ∃ span, text = span ++ rest ∧ content.Quotes span := by
  unfold quotedString at h
  split at h
  · cases h
  · next c behind =>
    split at h
    · next opens =>
      split at h
      · next span after closes =>
        cases h
        subst opens
        have whole : Text.quotedSpan ('"' :: behind) = some ('"' :: span, rest) := by
          simp [Text.quotedSpan, closes]
        -- The span was closed from inside the string, so its last character is the closing quote.
        have last : span = span.dropLast ++ ['"'] :=
          (List.dropLast_append_getLast? '"' (Text.getLast?_of_close closes rfl)).symm
        refine ⟨'"' :: span, congrArg (List.cons _) (Text.close_append closes).symm,
          span.dropLast, congrArg (List.cons _) last, isQuotedSpan_of_quotedSpan whole, rfl⟩
      · cases h
    · cases h

/-- A quoted string keeps its content. -/
theorem quotedString_accounts :
    quotedString.Accounts fun content pieces => pieces = [.quoted content] := by
  refine ⟨fun {text rest content} matched => ?_⟩
  obtain ⟨span, rfl, quotes⟩ := quotes_of_matched matched
  exact ⟨span, _, rfl, .unmarked (.quoted content) quotes rfl, rfl⟩

/-- An identifier is taken with its parentheses. -/
theorem append_of_identifier {text name rest : Text} (h : identifier text = .matched name rest) :
    text = name ++ rest := by
  rcases orElse_matched_iff.mp h with bare | ⟨-, parenthesized⟩
  · exact (takeWhile1_matched_iff.mp bare).1
  · simp only [bind_matched_iff, char_matched_iff, takeWhile1_matched_iff, pure_matched_iff]
      at parenthesized
    obtain ⟨_, _, ⟨rfl, -⟩, name, _, ⟨rfl, -⟩, _, _, ⟨rfl, -⟩, rfl, rfl⟩ := parenthesized
    simp

/-- The name of a property or block keeps how it is written. -/
theorem propertyName_accounts :
    propertyName.Accounts fun name pieces => pieces = [name.piece] := by
  have identifiers := Accounts.verbatim append_of_identifier
  apply Accounts.orElse
  · refine identifiers.bind fun text front bare => .pure ?_
    rw [bare]
    rfl
  · refine quotedString_accounts.bind fun content front quoted => .pure ?_
    rw [quoted]
    rfl

/-- A label is one piece, quoted or bare: the tree does not tell which. -/
theorem label_accounts : label.Accounts fun text pieces => pieces = [.label text] := by
  refine ⟨fun {text rest found} matched => ?_⟩
  rcases orElse_matched_iff.mp matched with quoted | ⟨-, bare⟩
  · obtain ⟨span, rfl, quotes⟩ := quotes_of_matched quoted
    exact ⟨span, _, rfl, .unmarked (.label found) (.inr quotes) rfl, rfl⟩
  · exact ⟨found, _, append_of_identifier bare, .unmarked (.label found) (.inl rfl) rfl, rfl⟩

/-- An equals sign or colon is a gap, with the white space around it. -/
theorem equals_skips : equals.Skips := by
  refine .behind skips_inlineWhitespace fun _ => .behind ?_ fun _ => skips_whitespace
  apply Accounts.orElse
  · exact .behind (skips_char (by decide)) fun _ => skips_notFollowedBy _
  · exact .behind (skips_char (by decide)) fun _ => .pure rfl

/-- The start of a call keeps the name. The parenthesis is a gap. -/
theorem callStart_accounts : callStart.Accounts fun name pieces => pieces = [.verbatim name] := by
  have names : functionName.Accounts fun name pieces => pieces = [.verbatim name] :=
    .verbatim fun matched => (functionName_shape matched).1
  refine names.bind fun name front named => ?_
  refine .behind skips_inlineWhitespace fun _ => ?_
  refine .behind (skips_char (by decide)) fun _ => .pure ?_
  rw [named, List.append_nil]

/-- Numbers and booleans keep their spelling. -/
theorem numberOrBool_accounts : KeepsNode numberOrBool := by
  have digits : number.Accounts fun text pieces => pieces = [.verbatim text] :=
    .verbatim fun matched => (number_shape matched).1
  have letters : boolean.Accounts fun text pieces => pieces = [.verbatim text] :=
    .verbatim fun matched => (boolean_matched_iff.mp matched).1
  refine (digits.orElse letters).bind fun text front spelled => .pure ?_
  rw [spelled]
  rfl

/-- A scalar keeps the content of its string, or its spelling. -/
theorem scalar_accounts : KeepsNode scalar := by
  refine .orElse ?_ numberOrBool_accounts
  refine quotedString_accounts.bind fun content front quoted => .pure ?_
  rw [quoted]
  rfl

/-- A heredoc is one piece, from its first line to its closing marker. -/
theorem heredoc_accounts : heredoc.Accounts fun doc pieces => pieces = [.heredoc doc] := by
  refine ⟨fun {text rest doc} matched => ?_⟩
  obtain ⟨behind, head, lines⟩ := heredoc_matched_iff.mp matched
  obtain ⟨line, first, rfl⟩ := isHeredocLine_of_matched head
  obtain ⟨-, indent, isInline, rfl⟩ := heredocBody_shape first.nonempty lines
  have spells : doc.Spells (line ++ doc.body ++ indent ++ doc.marker) :=
    ⟨line, indent, first, isInline, rfl⟩
  refine ⟨_, _, ?_, .unmarked (.heredoc doc) spells rfl, rfl⟩
  simp only [List.append_assoc]

/-- An operator keeps its symbol. -/
theorem operator_accounts : operator.Accounts fun symbol pieces => pieces = [.verbatim symbol] :=
  .verbatim fun matched => (operator_matched matched).1

/-- Unquoted text is kept as it is written. -/
theorem unquotedText_accounts :
    unquotedText.Accounts fun text pieces => pieces = [.verbatim text] :=
  .verbatim fun matched => (unquotedText_shape matched).1

/-- An accessor is kept as it is written. -/
theorem accessor_accounts : accessor.Accounts fun text pieces => pieces = [.verbatim text] :=
  .verbatim fun matched => (accessor_shape matched).1

/-! ### For expressions -/

/-- The names of a for expression are taken with the white space around their comma. -/
theorem spells_of_loopBindings {text bindings rest : Text}
    (h : loopBindings text = .matched bindings rest) :
    ∃ span, text = span ++ rest ∧ SpellsBindings bindings span := by
  obtain ⟨first, behind, second, found, others, rfl⟩ := loopBindings_matched_iff.mp h
  obtain rfl := append_of_identifier found
  rcases optional_matched_iff.mp others with ⟨name, rfl, takes⟩ | ⟨rfl, -, rfl⟩
  · obtain ⟨inside, comma, found⟩ := secondBinding_matched_iff.mp takes
    obtain ⟨space, isSpace, split⟩ := Text.trimStart_split behind
    obtain ⟨after, isAfter, splitInside⟩ := Text.trimStart_split inside
    rw [append_of_identifier found] at splitInside
    rw [comma, splitInside] at split
    -- The comma is printed with one space behind it, but any white space around it is accepted.
    refine ⟨first ++ space ++ ',' :: after ++ name, ?_,
      .inr ⟨first, name, space, after, isSpace, isAfter, rfl, rfl⟩⟩
    rw [split]
    simp
  · exact ⟨first, rfl, .inl rfl⟩

/-- The condition of a for expression is taken with the word in front of it. -/
theorem spells_of_loopCondition {text condition rest : Text}
    (h : optionalText loopCondition text = .matched condition rest) :
    ∃ span, text = span ++ rest ∧ SpellsCondition condition span := by
  rcases optionalText_matched_iff.mp h with found | ⟨rfl, -, rfl⟩
  · obtain ⟨inside, starts, -, -, rfl⟩ := loopCondition_matched_iff.mp found
    obtain ⟨space, isSpace, split⟩ := Text.trimStart_split text
    refine ⟨space ++ "if".toList ++ inside, ?_, .inr ⟨space, inside, isSpace, rfl, rfl⟩⟩
    rw [split, starts]
    simp only [List.append_assoc]
  · exact ⟨[], rfl, .inl ⟨rfl, rfl⟩⟩

/-- A for expression is taken from its opening to its closing bracket. -/
theorem spells_of_forLoop {openingBracket closingBracket : Char} {text rest : Text} {loop : ForLoop}
    (h : forLoop openingBracket closingBracket text = .matched loop rest) :
    ∃ span, text = span ++ rest ∧ loop.Spells span := by
  obtain ⟨behindOpening, behindFor, bindings, behindBindings, space, behindIn, collection,
    behindCollection, statements, behindStatements, condition, behindCondition, rfl, keyword, names,
    starts, isSpace, part, yields, tests, ends, rfl⟩ := forLoop_matched_iff.mp h
  obtain ⟨space₁, isSpace₁, split₁⟩ := Text.trimStart_split behindOpening
  obtain ⟨space₂, isSpace₂, split₂⟩ := Text.trimStart_split behindFor
  obtain ⟨space₃, isSpace₃, split₃⟩ := Text.trimStart_split behindBindings
  obtain ⟨space₄, isSpace₄, split₄⟩ := Text.trimStart_split behindIn
  obtain ⟨space₅, isSpace₅, split₅⟩ := Text.trimStart_split behindCollection
  obtain ⟨space₆, isSpace₆, split₆⟩ := Text.trimStart_split behindCondition
  obtain ⟨names, sameNames, spellsNames⟩ := spells_of_loopBindings names
  obtain ⟨test, sameTest, spellsTest⟩ := spells_of_loopCondition tests
  -- The parts are put together from the last one on.
  rw [ends] at split₆
  rw [(loopPart_matched_iff.mp yields).1, sameTest, split₆] at split₅
  rw [(loopPart_matched_iff.mp part).1, split₅] at split₄
  rw [starts, split₄] at split₃
  rw [sameNames, split₃] at split₂
  rw [(forKeyword_matched_iff.mp keyword).1, split₂] at split₁
  refine ⟨openingBracket :: space₁ ++ "for".toList ++ space₂ ++ names ++ space₃ ++ "in".toList
      ++ (space :: space₄) ++ collection ++ ':' :: space₅ ++ statements ++ test ++ space₆
      ++ [closingBracket], ?_, names, collection, statements, test, space₁, space₂, space₃,
    space :: space₄, space₅, space₆, spellsNames, rfl, rfl, spellsTest, ?_, rfl⟩
  · rw [split₁]
    simp only [List.append_assoc, List.cons_append, List.nil_append]
  · have isSpaceIn : Text.AllSpace (space :: space₄) := by
      intro c hc
      rcases List.mem_cons.mp hc with rfl | hc
      · exact isSpace
      · exact isSpace₄ c hc
    simp [isSpace₁, isSpace₂, isSpace₃, isSpaceIn, isSpace₅, isSpace₆]

/-- A for expression is one piece. -/
theorem forLoop_accounts (openingBracket closingBracket : Char) :
    (forLoop openingBracket closingBracket).Accounts fun loop pieces => pieces = [.forLoop loop] := by
  refine ⟨fun {text rest loop} matched => ?_⟩
  obtain ⟨span, same, spells⟩ := spells_of_forLoop matched
  exact ⟨span, _, same, .unmarked (.forLoop loop) spells rfl, rfl⟩

/-- A closing bracket is a gap, with the white space before it. -/
theorem closing_skips {bracket : Char} (gap : isGapChar bracket = true) (construct : Construct) :
    (closing bracket construct).Skips := by
  refine ⟨fun {text rest _} matched => ?_⟩
  obtain ⟨space, isSpace, split⟩ := Text.trimStart_split text
  rw [closing_matched_iff.mp matched] at split
  refine ⟨space ++ [bracket], [], by simp [split], ?_, rfl⟩
  exact (Covers.space isSpace).append (.char gap .nil)

/-! ### Type constraints -/

/-- A primitive type keeps its name. Quotes stand right around the name. -/
theorem primitiveType_accounts : KeepsNode primitiveType := by
  have names := Accounts.verbatim fun matched => (primitiveName_shape matched).1
  apply Accounts.orElse
  · refine names.bind fun name front bare => .pure ?_
    rw [bare]
    rfl
  · refine ⟨fun matched => ?_⟩
    simp only [bind_matched_iff, char_matched_iff, pure_matched_iff] at matched
    obtain ⟨_, _, ⟨rfl, -⟩, name, _, found, _, _, ⟨rfl, -⟩, rfl, rfl⟩ := matched
    refine ⟨_, _, ?_, .single (.quotedType name) rfl, rfl⟩
    simp [(primitiveName_shape found).1, Piece.marks]

/-- The word of a type constraint is a gap, with its parenthesis. -/
theorem typeWord_skips {name : Text} (gap : name ∈ gapWords) : (typeWord name).Skips := by
  refine .behind (skips_word gap) fun _ => ?_
  refine .behind skips_whitespace fun _ => ?_
  exact .behind (skips_char (by decide)) fun _ => skips_whitespace

/-- A comma that may be left out, behind white space. -/
theorem comma_skips {space : Rule Unit} (h : space.Skips) :
    (optional do space; char ',' : Rule (Option Char)).Skips :=
  Skips.optional (.behind h fun _ => skips_char (by decide))

section TypeConstraint

variable {inner : Rule Node} (h : KeepsNode inner)

include h

/-- A collection type keeps what its element keeps. -/
theorem collectionType_accounts (collection : CollectionType) :
    KeepsNode (collectionType inner collection) := by
  have word : collection.word ∈ gapWords := by cases collection <;> decide
  refine .behind (typeWord_skips word) fun _ => ?_
  refine h.bind fun element front kept => ?_
  refine .behind skips_whitespace fun _ => ?_
  refine .behind (skips_char (by decide)) fun _ => .pure ?_
  rw [kept, List.append_nil, pieces_collectionType]

/-- A member of an object type keeps its name and what its type keeps. -/
theorem typeMember_accounts : KeepsNode (typeMember inner) := by
  refine propertyName_accounts.bind fun name front named => ?_
  refine .behind equals_skips fun _ => ?_
  refine h.bind fun value back kept => .pure ?_
  rw [named, kept, List.append_nil, pieces_property (.inl rfl), List.singleton_append]

/-- An object type keeps what its members keep. -/
theorem objectType_accounts : KeepsNode (objectType inner) := by
  have member : KeepsNode (memberItem inner) := by
    refine .behind skips_whitespace fun _ => ?_
    refine (comment_accounts.orElse (typeMember_accounts h)).bind fun member front kept => ?_
    refine .behind (comma_skips skips_inlineWhitespace) fun _ => .pure ?_
    rw [kept, List.append_nil]
  refine .behind (typeWord_skips (by decide)) fun _ => ?_
  refine .behind (skips_char (by decide)) fun _ => ?_
  refine member.many.bind fun members front kept => ?_
  refine .behind skips_whitespace fun _ => .behind (skips_char (by decide)) fun _ => ?_
  refine .behind skips_whitespace fun _ => .behind (skips_char (by decide)) fun _ => .pure ?_
  rw [kept, List.append_nil, pieces_objectType]

/-- A tuple type keeps what its elements keep. -/
theorem tupleType_accounts : KeepsNode (tupleType inner) := by
  have element : KeepsNode (tupleItem inner) := by
    refine .behind skips_whitespace fun _ => ?_
    refine h.bind fun element front kept => ?_
    refine .behind (comma_skips skips_whitespace) fun _ => .pure ?_
    rw [kept, List.append_nil]
  refine .behind (typeWord_skips (by decide)) fun _ => ?_
  refine .behind (skips_char (by decide)) fun _ => ?_
  refine element.many.bind fun elements front kept => ?_
  refine .behind skips_whitespace fun _ => .behind (skips_char (by decide)) fun _ => ?_
  refine .behind skips_whitespace fun _ => .behind (skips_char (by decide)) fun _ => .pure ?_
  rw [kept, List.append_nil, pieces_tupleType]

/-- A type constraint over rules that account for the types inside it accounts for its text. -/
theorem typeConstraintOver_accounts : KeepsNode (typeConstraintOver inner) := by
  have map := collectionType_accounts h .map
  have list := collectionType_accounts h .list
  have set := collectionType_accounts h .set
  have object := objectType_accounts h
  have tuple := tupleType_accounts h
  exact map.orElse (object.orElse (list.orElse (set.orElse (tuple.orElse primitiveType_accounts))))

end TypeConstraint

/-- A type constraint accounts for its text, however deep it goes. -/
theorem typeConstraint_accounts : KeepsNode typeConstraint := by
  refine accounts_iff.mpr fun text => typeConstraint_induction
    (fun text reply => ∀ node rest, reply = .matched node rest →
      ∃ span, text = span ++ rest ∧ Covers node.pieces span)
    (fun _ _ _ h => nomatch h) (fun rule _ inside => ?_) text
  exact accounts_iff.mp (typeConstraintOver_accounts (accounts_iff.mpr inside))

/-! ### Values -/

/-- A value keeps what its terms keep. -/
theorem pieces_ofTerms (terms : List Node) : (ofTerms terms).pieces = terms.flatMap Node.pieces := by
  unfold ofTerms
  split
  · rw [List.flatMap_singleton]
  · rw [pieces_unquotedExpression]

section Values

variable {rules : Inner}

/-- The elements of a bracket keep what each of them keeps. Their commas and the closing bracket are
gaps. -/
theorem elements_accounts (value : KeepsNode rules.value) {bracket : Char}
    (gap : isGapChar bracket = true) (construct : Construct) :
    KeepsNodes (elements rules bracket construct) := by
  have element : KeepsNode (elementItem rules) := by
    refine .behind skips_whitespace fun _ => ?_
    refine (comment_accounts.orElse value).bind fun element front kept => ?_
    refine .behind (comma_skips skips_whitespace) fun _ => .pure ?_
    rw [kept, List.append_nil]
  refine element.many.bind fun elements front kept => ?_
  refine .behind (closing_skips gap construct) fun _ => .pure ?_
  rw [kept, List.append_nil]

/-- A call keeps its name and what its arguments keep. -/
theorem functionCall_accounts (value : KeepsNode rules.value) : KeepsNode (functionCall rules) := by
  refine callStart_accounts.bind fun name front named => ?_
  refine (elements_accounts value (by decide) _).bind fun arguments back kept => .pure ?_
  rw [named, kept, List.append_nil, pieces_function]
  rfl

/-- An expression in parentheses keeps what stands in them. It is a call without a name. -/
theorem parenthesized_accounts (value : KeepsNode rules.value) : KeepsNode (parenthesized rules) := by
  refine .behind (skips_char (by decide)) fun _ => ?_
  refine (elements_accounts value (by decide) _).bind fun arguments front kept => .pure ?_
  rw [kept, List.append_nil, pieces_function]
  rfl

/-- A list keeps what its elements keep and nothing of its own. -/
theorem list_accounts (value : KeepsNode rules.value) : (list rules).Accounts fun node pieces =>
    pieces = node.pieces ∧ node.ownPieces = [] := by
  refine .behind (skips_char (by decide)) fun _ => ?_
  refine .behind (skips_notFollowedBy _) fun _ => ?_
  refine (elements_accounts value (by decide) _).bind fun elements front kept => .pure ⟨?_, rfl⟩
  rw [kept, List.append_nil, pieces_list]

/-- A map keeps what its entries keep and nothing of its own. -/
theorem map_accounts (declarations : KeepsNodes rules.declarations) :
    (map rules).Accounts fun node pieces => pieces = node.pieces ∧ node.ownPieces = [] := by
  refine .behind (skips_char (by decide)) fun _ => ?_
  refine .behind (skips_notFollowedBy _) fun _ => ?_
  refine declarations.bind fun entries front kept => ?_
  refine .behind (closing_skips (by decide) _) fun _ => .pure ⟨?_, rfl⟩
  rw [kept, List.append_nil, pieces_map]

variable (value : KeepsNode rules.value) (declarations : KeepsNodes rules.declarations)

include value declarations

/-- A term keeps what it is made of, whichever of the nine forms it has. -/
theorem operand_accounts : KeepsNode (operand rules) := by
  have call := functionCall_accounts value
  have group := parenthesized_accounts value
  have loop (openingBracket closingBracket : Char) :
      KeepsNode (do return .forLoop (← forLoop openingBracket closingBracket)) := by
    refine (forLoop_accounts _ _).bind fun loop front kept => .pure ?_
    rw [kept]
    rfl
  have list := (list_accounts value).mono fun _ _ known => known.1
  have map := (map_accounts declarations).mono fun _ _ known => known.1
  have lines : KeepsNode (do return .heredoc (← heredoc)) := by
    refine heredoc_accounts.bind fun doc front kept => .pure ?_
    rw [kept]
    rfl
  have plain : KeepsNode (do return .unquotedString (← unquotedText)) := by
    refine unquotedText_accounts.bind fun text front kept => .pure ?_
    rw [kept]
    rfl
  exact call.orElse <| group.orElse <| (loop _ _).orElse <| (loop _ _).orElse <| list.orElse <|
    map.orElse <| lines.orElse <| scalar_accounts.orElse plain

/-- A term keeps its accessor behind it. -/
theorem operandWithAccessor_accounts : KeepsNodes (operandWithAccessor rules) := by
  refine (operand_accounts value declarations).bind fun term front same => ?_
  have alone : (pure [term] : Rule (List Node)).Accounts fun nodes back =>
      front ++ back = nodes.flatMap Node.pieces :=
    .pure (by rw [same, List.append_nil, List.flatMap_singleton])
  split
  · refine (Accounts.optional accessor_accounts).bind fun found back known => ?_
    rcases known with ⟨text, rfl, rfl⟩ | ⟨rfl, rfl⟩
    · exact .pure (by rw [same]; rfl)
    · exact alone
  -- A term that takes no accessor is never asked for one.
  · exact alone

/-- Signs are kept in front of their term, and the white space behind each of them is a gap. -/
theorem unaryOperand_accounts : KeepsNodes (unaryOperand rules) := by
  refine ⟨fun {text rest terms} matched => ?_⟩
  obtain ⟨readings, reads, rfl⟩ := unaryOperand_matched_iff.mp matched
  clear matched
  induction reads with
  | unsigned reads =>
    exact (operandWithAccessor_accounts value declarations).of_matched
      (operandWithAccessor_matched_iff.mpr ⟨_, reads, rfl⟩)
  | @signed sign behind _ _ _ _ _ ih =>
    obtain ⟨space, isSpace, split⟩ := Text.trimStart_split behind
    obtain ⟨span, _, same, covers, rfl⟩ := ih
    refine ⟨sign :: (space ++ span), _, ?_, ?_, rfl⟩
    · rw [split, same, List.cons_append, List.append_assoc]
    · exact (Covers.verbatim [sign]).append ((Covers.space isSpace).append covers)

/-- An operator is kept in front of the term behind it, whichever white space may stand before it. -/
theorem operation_accounts (multiline : Bool) : KeepsNodes (operation rules multiline) := by
  have behind {space : Rule Unit} (h : space.Skips) : KeepsNodes (do
      space
      let symbol ← operator
      whitespace
      let terms ← unaryOperand rules
      return .mathSymbol symbol :: terms) := by
    refine .behind h fun _ => ?_
    refine operator_accounts.bind fun symbol front operates => ?_
    refine .behind skips_whitespace fun _ => ?_
    refine (unaryOperand_accounts value declarations).bind fun terms back kept => .pure ?_
    rw [operates, kept, List.append_nil]
    rfl
  cases multiline with
  | false => exact behind skips_inlineWhitespace
  | true => exact behind skips_whitespace

/-- An expression keeps what its terms keep, one behind the other. -/
theorem expressionTerms_accounts (multiline : Bool) :
    KeepsNodes (expressionTerms rules multiline) := by
  have operations := (operation_accounts value declarations multiline).many
  refine (unaryOperand_accounts value declarations).bind fun first _ front => ?_
  refine operations.bind fun others _ back => .pure ?_
  rw [front, back, List.append_nil, List.flatMap_append, ← List.flatMap_id, List.flatMap_assoc]
  rfl

/-- A value keeps what its terms keep. -/
theorem valueOver_accounts : KeepsNode (valueOver rules) := by
  refine (expressionTerms_accounts value declarations true).bind fun terms front kept => .pure ?_
  rw [kept, List.append_nil, pieces_ofTerms]

end Values

/-! ### Declarations -/

/-- A property keeps its name and what the terms of its value keep. -/
theorem pieces_propertyOfTerms (name : Name) (terms : List Node) :
    (propertyOfTerms name terms).pieces = name.piece :: terms.flatMap Node.pieces := by
  unfold propertyOfTerms
  split
  case h_8 => rw [pieces_property (.inl rfl), pieces_unquotedExpression]
  all_goals first
    | rw [pieces_property (.inl rfl), List.flatMap_singleton]
    | rw [pieces_property (.inr rfl), List.flatMap_singleton]

/-- The name of a block is kept as it is written. The word `dynamic` before it is a gap. -/
theorem blockName_accounts :
    blockName.Accounts fun found pieces => pieces = [found.2.piece] := by
  have word : (keyword "dynamic".toList).Skips := by
    refine .behind (skips_word (by decide)) fun _ => ?_
    exact .behind (skips_followedBy _) fun _ => .pure rfl
  apply Accounts.orElse
  · refine .behind word fun _ => .behind skips_whitespace fun _ => ?_
    refine propertyName_accounts.bind fun name front named => .pure ?_
    rw [named, List.append_nil]
  · refine propertyName_accounts.bind fun name front named => .pure ?_
    rw [named, List.append_nil]

/-- A look at the end of the line takes nothing. -/
theorem endOfValue_skips : endOfValue.Skips :=
  skips_followedBy _

/-- A property keeps its name and what its value keeps. -/
theorem assigned_accounts {kind : PropertyKind} {rule : Rule Node}
    (h : rule.Accounts fun value pieces =>
      pieces = value.pieces ∧ (kind.showsEntries = false ∨ value.ownPieces = [])) :
    KeepsNode (assigned kind rule) := by
  refine propertyName_accounts.bind fun name front named => ?_
  refine .behind equals_skips fun _ => ?_
  refine h.bind fun value back kept => ?_
  refine .behind endOfValue_skips fun _ => .pure ?_
  rw [named, kept.1, List.append_nil, pieces_property kept.2, List.singleton_append]

section Declarations

variable {rules : Inner}

/-- The body of a block keeps what its declarations keep. The braces are gaps. -/
theorem blockBody_accounts (lists : KeepsNodes rules.declarations) :
    KeepsNodes (blockBody rules) := by
  refine .behind skips_whitespace fun _ => .behind (skips_char (by decide)) fun _ => .body ?_
  refine lists.bind fun found front kept => ?_
  refine .behind skips_whitespace fun _ => .behind (skips_char (by decide)) fun _ => .pure ?_
  rw [kept, List.append_nil]

/-- A block without labels keeps its name and what its body keeps. -/
theorem namedBlock_accounts (lists : KeepsNodes rules.declarations) :
    KeepsNode (namedBlock rules) := by
  refine blockName_accounts.bind fun name front named => ?_
  refine (blockBody_accounts lists).bind fun found back kept => .pure ?_
  rw [named, kept, List.append_nil, pieces_block]
  rfl

/-- A block with one label keeps it between its name and its body. -/
theorem labelledBlock_accounts (lists : KeepsNodes rules.declarations) :
    KeepsNode (labelledBlock rules) := by
  refine blockName_accounts.bind fun name front named => ?_
  refine .behind equals_skips.optional fun _ => .behind skips_whitespace fun _ => ?_
  refine label_accounts.bind fun first middle labelled => ?_
  refine (blockBody_accounts lists).bind fun found back kept => .pure ?_
  rw [named, labelled, kept, List.append_nil, pieces_block]
  rfl

/-- A block with two labels keeps both in their order. -/
theorem typedBlock_accounts (lists : KeepsNodes rules.declarations) :
    KeepsNode (typedBlock rules) := by
  refine blockName_accounts.bind fun name front named => ?_
  refine .behind skips_whitespace fun _ => ?_
  refine label_accounts.bind fun first inner firstLabel => ?_
  refine .behind skips_whitespace fun _ => ?_
  refine label_accounts.bind fun second outer secondLabel => ?_
  refine (blockBody_accounts lists).bind fun found back kept => .pure ?_
  rw [named, firstLabel, secondLabel, kept, List.append_nil, pieces_block]
  rfl

/-- The word `function` is the name of the block, so it is no gap here. -/
theorem functionDeclaration_accounts (lists : KeepsNodes rules.declarations) :
    KeepsNode (functionDeclaration rules) := by
  have word : (keyword "function".toList).Accounts fun _ pieces =>
      pieces = [.verbatim "function".toList] := by
    refine ⟨fun matched => ?_⟩
    obtain ⟨rfl, -⟩ := keyword_matched_iff.mp matched
    exact ⟨_, _, rfl, .verbatim _, rfl⟩
  refine word.bind fun _ front named => ?_
  refine .behind skips_whitespace fun _ => ?_
  refine label_accounts.bind fun first middle labelled => ?_
  refine (blockBody_accounts lists).bind fun found back kept => .pure ?_
  rw [named, labelled, kept, List.append_nil, pieces_block]
  rfl

/-- A property with a list keeps its name and what the list keeps. -/
theorem listProperty_accounts (value : KeepsNode rules.value) : KeepsNode (listProperty rules) := by
  apply assigned_accounts
  exact (list_accounts value).mono fun _ _ known => ⟨known.1, .inr known.2⟩

/-- A property with a map keeps its name and what the map keeps. -/
theorem mapProperty_accounts (lists : KeepsNodes rules.declarations) :
    KeepsNode (mapProperty rules) := by
  apply assigned_accounts
  exact (map_accounts lists).mono fun _ _ known => ⟨known.1, .inr known.2⟩

/-- A property with a type constraint keeps its name and what the type keeps. -/
theorem typedProperty_accounts : KeepsNode typedProperty := by
  apply assigned_accounts
  exact typeConstraint_accounts.mono fun _ _ same => ⟨same, .inl rfl⟩

/-- A property with a scalar keeps its name and the scalar. -/
theorem scalarProperty_accounts : KeepsNode scalarProperty := by
  apply assigned_accounts
  exact scalar_accounts.mono fun _ _ same => ⟨same, .inl rfl⟩

/-- A property with a for expression in square brackets keeps its name and the for expression. -/
theorem forListProperty_accounts : KeepsNode forListProperty := by
  apply assigned_accounts
  refine (forLoop_accounts _ _).bind fun loop front kept => .pure ⟨?_, .inl rfl⟩
  rw [kept, List.append_nil]
  rfl

/-- A property with a heredoc keeps its name and the heredoc. -/
theorem heredocProperty_accounts : KeepsNode heredocProperty := by
  refine propertyName_accounts.bind fun name front named => ?_
  refine .behind equals_skips fun _ => ?_
  refine heredoc_accounts.bind fun doc back kept => .pure ?_
  rw [named, kept, List.append_nil, pieces_property (.inl rfl)]
  rfl

variable (value : KeepsNode rules.value) (lists : KeepsNodes rules.declarations)

include value lists

/-- A property whose value is an expression, behind anything that takes nothing, keeps its name and what
the terms keep. -/
theorem expressionProperty_accounts {ahead : Rule Unit} (skips : ahead.Skips) : KeepsNode (do
    let name ← propertyName
    equals
    ahead
    let terms ← expressionTerms rules false
    return propertyOfTerms name terms) := by
  refine propertyName_accounts.bind fun name front named => ?_
  refine .behind equals_skips fun _ => .behind skips fun _ => ?_
  refine (expressionTerms_accounts value lists false).bind fun terms back kept => .pure ?_
  rw [named, kept, List.append_nil, pieces_propertyOfTerms]
  rfl

/-- A declaration keeps what it is made of, whichever of the fourteen forms it has. -/
theorem declaration_accounts : KeepsNode (declaration rules) := by
  have block := namedBlock_accounts lists
  have ofCall : KeepsNode (functionProperty rules) :=
    expressionProperty_accounts value lists (skips_followedBy callStart)
  have ofObject : KeepsNode (forObjectProperty rules) :=
    expressionProperty_accounts value lists (skips_followedBy _)
  have function := functionDeclaration_accounts lists
  have labelled := labelledBlock_accounts lists
  have typed := typedBlock_accounts lists
  -- With nothing looked at in advance the rule is the plain one.
  have ofTerms : KeepsNode (unquotedProperty rules) :=
    expressionProperty_accounts value lists (.pure rfl : (pure () : Rule Unit).Skips)
  have ofList := listProperty_accounts value
  have ofMap := mapProperty_accounts lists
  exact block.orElse <| typedProperty_accounts.orElse <| ofCall.orElse <| ofObject.orElse <|
    function.orElse <| labelled.orElse <| typed.orElse <| scalarProperty_accounts.orElse <|
    ofTerms.orElse <| ofList.orElse <| ofMap.orElse <| heredocProperty_accounts.orElse <|
    comment_accounts.orElse forListProperty_accounts

/-- Declarations keep what each of them keeps. The separators between them are gaps. -/
theorem declarationsOver_accounts : KeepsNodes (declarationsOver rules) := by
  have separator : (optional do whitespace; oneOf [',', ';'] : Rule (Option Char)).Skips :=
    Skips.optional (.behind skips_whitespace fun _ => skips_oneOf (by decide))
  have item : KeepsNode (declarationItem rules) := by
    refine .behind skips_whitespace fun _ => ?_
    refine (declaration_accounts value lists).bind fun found front kept => ?_
    refine .behind separator fun _ => .pure ?_
    rw [kept, List.append_nil]
  exact item.many

end Declarations

/-! ### The recursion -/

/-- What `value` and `declarations` read accounts for the text they take. -/
theorem accounts_inner (text : Text) :
    (∀ node rest, value text = .matched node rest →
        ∃ span, text = span ++ rest ∧ Covers node.pieces span)
      ∧ ∀ nodes rest, declarations text = .matched nodes rest →
        ∃ span, text = span ++ rest ∧ Covers (nodes.flatMap Node.pieces) span := by
  refine inner_induction
    (fun text reply => ∀ node rest, reply = .matched node rest →
      ∃ span, text = span ++ rest ∧ Covers node.pieces span)
    (fun text reply => ∀ nodes rest, reply = .matched nodes rest →
      ∃ span, text = span ++ rest ∧ Covers (nodes.flatMap Node.pieces) span)
    (fun _ _ _ h => nomatch h) (fun text nodes rest h => ?_) (fun rules _ _ values lists text => ?_)
    text
  -- At the innermost level there are no declarations, and they take nothing.
  · cases h
    exact ⟨[], rfl, .nil⟩
  · have value := accounts_iff.mpr values
    have lists := accounts_iff.mpr lists
    exact ⟨accounts_iff.mp (valueOver_accounts value lists) text,
      accounts_iff.mp (declarationsOver_accounts value lists) text⟩

end HclSyntax.Grammar
