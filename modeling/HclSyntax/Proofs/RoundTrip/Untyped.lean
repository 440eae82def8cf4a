import HclSyntax.Proofs.RoundTrip.Declaration
import HclSyntax.Proofs.RoundTrip.Member

/-!
# `HclSyntax.Proofs.RoundTrip.Untyped`: values that start no type constraint

A type constraint starts with a word: the name of a primitive type, which may stand in quotes, or one of
five words in front of a parenthesis. `mismatches_typeConstraint_of` says what has to be known of a text
that none of them starts, and `startsNoType_of_opensType` that it is known of the printed form of an
operand of which `Node.opensType` says so. An expression starts with a sign or with its first operand,
so a value that `opensType` turns down is `Untyped` (`untyped_of_opensType`).
-/

set_option autoImplicit false

namespace HclSyntax.Grammar

open Rule Node

/-! ### Words -/

/-- A word that stands in front of a parenthesis in a type does not do so here. -/
theorem mismatches_typeWord {word text : Text}
    (h : ∀ rest, text = word ++ rest → rest.trimStart.head? ≠ some '(') :
    (typeWord word).Mismatches text := by
  by_cases starts : word <+: text
  · obtain ⟨rest, rfl⟩ := starts
    exact Mismatches.behind (word_append word rest) (Mismatches.behind (whitespace_apply rest)
      ((mismatches_char_iff.mpr (h rest rfl)).bind _))
  · exact (mismatches_word_iff.mpr starts).bind _

/-- The name of a primitive type goes on here. -/
theorem mismatches_primitiveName_of {text : Text}
    (h : ∀ word ∈ primitiveWords, ∀ rest, text = word ++ rest → ¬ Text.Stops isNameChar rest) :
    primitiveName.Mismatches text := by
  rcases answers primitiveName text with mismatch | ⟨name, rest, found⟩
  · exact mismatch
  · obtain ⟨rfl, listed⟩ := primitiveName_shape found
    obtain ⟨_, behind, words, ends⟩ := bind_matched_iff.mp found
    obtain ⟨_, _, stops, same⟩ := bind_matched_iff.mp ends
    obtain ⟨rfl, rfl⟩ := pure_matched_iff.mp same
    obtain ⟨noChar, rfl⟩ := notFollowedBy_matched_iff.mp stops
    exact absurd (mismatches_charWhere_iff.mp noChar) (h _ listed _ rfl)

/-- The rules for type constraints, in front of a text that starts none of them. -/
theorem mismatches_typeConstraint_of {text : Text}
    (collection : ∀ collection, (collectionType typeConstraint collection).Mismatches text)
    (object : (objectType typeConstraint).Mismatches text)
    (tuple : (typeWord "tuple".toList).Mismatches text)
    (primitive : ∀ word ∈ primitiveWords, ∀ rest, text = word ++ rest → ¬ Text.Stops isNameChar rest)
    (noQuote : text.head? ≠ some '"') : typeConstraint.Mismatches text := by
  have mismatch : (typeConstraintOver typeConstraint).Mismatches text := by
    simp only [typeConstraintOver, mismatches_orElse_iff]
    exact ⟨collection _, object, collection _, collection _, tuple.bind _,
      mismatches_orElse_iff.mpr ⟨(mismatches_primitiveName_of primitive).bind _,
        (mismatches_char_iff.mpr noQuote).bind _⟩⟩
  obtain ⟨rest, gaveUp⟩ := mismatch
  exact ⟨rest, (typeConstraint_eq text).trans gaveUp⟩

/-! ### Strings and literals -/

/-- A quoted text is the quoted word for a primitive type only as that word. -/
theorem mismatches_typeConstraint_quote {content : Text} (ends : content.sequencesEnd = true)
    (notType : content ∉ primitiveWords) (rest : Text) :
    typeConstraint.Mismatches (content.quote ++ rest) := by
  have primitive := @typeConstraint_primitive (content.quote ++ rest) '"' rfl (by decide)
    (@not_prefix_of_head _ _ 's' '"' rfl rfl (by decide))
  unfold Mismatches
  rw [primitive]
  rcases answers primitiveType (content.quote ++ rest) with mismatch | ⟨node, behind, found⟩
  · exact mismatch
  rcases orElse_matched_iff.mp found with bare | ⟨-, quoted⟩
  · obtain ⟨name, _, word, -⟩ := bind_matched_iff.mp bare
    obtain ⟨same, listed⟩ := primitiveName_shape word
    have letters : ∀ word ∈ primitiveWords, ∃ c tail, word = c :: tail ∧ c ≠ '"' := by
      simp [primitiveWords]
    obtain ⟨c, tail, rfl, apart⟩ := letters name listed
    exact absurd (List.cons.inj same).1.symm apart
  · simp only [bind_matched_iff, char_matched_iff, pure_matched_iff] at quoted
    obtain ⟨_, inside, ⟨whole, -⟩, name, _, word, _, after, ⟨rfl, -⟩, -⟩ := quoted
    obtain ⟨rfl, listed⟩ := primitiveName_shape word
    obtain ⟨quote, nameEnds⟩ := quote_primitive listed
    -- Both texts are read as quoted strings, and only one of them can be.
    have first := quotedString_quote ends rest
    have second := quotedString_quote nameEnds after
    rw [quote, List.cons_append, List.append_assoc, List.singleton_append, ← whole, first] at second
    cases second
    exact absurd listed notType

/-- No boolean starts like the words of type constraints. -/
theorem mismatches_typeConstraint_boolean {text : Text} (h : IsBoolean text) (rest : Text) :
    typeConstraint.Mismatches (text ++ rest) := by
  -- Two letters tell them apart: `true` and `tuple` have the same first one.
  have words : ∀ word ∈ typeWords, 2 ≤ word.length
      ∧ (word.take 2).map Char.toLower ∉ ["tr".toList, "fa".toList] := by
    decide
  have start : (text.take 2).map Char.toLower ∈ ["tr".toList, "fa".toList] ∧ 2 ≤ text.length := by
    have lower := isBoolean_iff.mp h
    have starts : ∀ word ∈ ["true".toList, "false".toList],
        word.take 2 ∈ ["tr".toList, "fa".toList] ∧ 2 ≤ word.length := by
      decide
    simpa [List.map_take] using starts _ lower
  refine mismatches_typeConstraint ?_ ?_
  · rintro word listed ⟨tail, shape⟩
    obtain ⟨long, apart⟩ := words word listed
    have same : word.take 2 = text.take 2 := by
      have front := congrArg (List.take 2) shape
      rwa [List.take_append_of_le_length long, List.take_append_of_le_length start.2] at front
    exact apart (same ▸ start.1)
  · obtain ⟨c, tail, rfl, letter⟩ := h.starts
    rintro head
    obtain rfl : c = '"' := by simpa using head
    exact absurd letter (by decide)

/-- No number or boolean starts a type constraint. -/
theorem mismatches_typeConstraint_literal {text : Text} (h : IsNumber text ∨ IsBoolean text)
    (rest : Text) : typeConstraint.Mismatches (text ++ rest) := by
  rcases h with number | boolean
  · obtain ⟨c, tail, rfl, digit⟩ := number.starts
    refine mismatches_typeConstraint_of_stops ((Text.stops_cons ..).mpr ?_)
    simp only [Bool.or_eq_true, beq_iff_eq] at digit
    rcases digit with digit | rfl
    · have apart : c ≠ '"' := by
        rintro rfl
        exact absurd digit (by decide)
      simp [isAlphabetic_of_isDigit digit, apart]
    · decide
  · exact mismatches_typeConstraint_boolean boolean rest

/-! ### Words in front of a parenthesis -/

section Words

variable {text follow word rest : Text}

/-- A word at the front of a text that ends in front of its letters is at the front of the first part. -/
theorem split_word (letters : ∀ c ∈ word, isNameChar c = true) (stops : Text.Stops isNameChar follow)
    (same : text ++ follow = word ++ rest) : ∃ more, text = word ++ more ∧ rest = more ++ follow := by
  rcases List.append_eq_append_iff.mp same with ⟨more, rfl, rfl⟩ | ⟨more, rfl, rfl⟩
  · cases more with
    | nil => exact ⟨[], by simp, by simp⟩
    | cons c more =>
      have letter := letters c (by simp)
      have none : isNameChar c = false := stops c rfl
      simp [letter] at none
  · exact ⟨more, rfl, rfl⟩

/-- The words of types are made of characters of names. -/
theorem chars_of_typeCalls : ∀ word ∈ typeCalls, ∀ c ∈ word, isNameChar c = true := by
  decide

/-- So are the names of primitive types. -/
theorem chars_of_primitiveWords : ∀ word ∈ primitiveWords, ∀ c ∈ word, isNameChar c = true := by
  decide

/-- A text starts with the word for a primitive type only as `opensPrimitive` says. -/
theorem goesOn_of_opensPrimitive (other : opensPrimitive text = false)
    (stops : Text.Stops isNameChar follow) (listed : word ∈ primitiveWords)
    (same : text ++ follow = word ++ rest) : ¬ Text.Stops isNameChar rest := by
  -- The word is all of the text or the text goes on behind it.
  obtain ⟨more, rfl, rfl⟩ := split_word (chars_of_primitiveWords word listed) stops same
  have found : word.isPrefixOf? (word ++ more) = some more :=
    List.isPrefixOf?_eq_some_iff_append_eq.mpr rfl
  have here := List.any_eq_false.mp other word listed
  rw [found] at here
  cases more with
  | nil => simp at here
  | cons c more =>
    have nameChar : isNameChar c = true := by simpa using here
    intro ends
    have none : isNameChar c = false := ends c rfl
    simp [nameChar] at none

/-- A text starts with a word in front of a parenthesis only as the whole word. -/
theorem noCall_of_ne (stops : Text.Stops isNameChar follow) (listed : word ∈ typeCalls)
    (other : text ≠ word)
    (inside : ∀ c more, text = word ++ c :: more → isWhitespace c = false ∧ c ≠ '(')
    (same : text ++ follow = word ++ rest) : rest.trimStart.head? ≠ some '(' := by
  obtain ⟨more, rfl, rfl⟩ := split_word (chars_of_typeCalls word listed) stops same
  cases more with
  | nil => exact absurd (List.append_nil word) other
  | cons c more =>
    obtain ⟨notSpace, notOpening⟩ := inside c more rfl
    rw [List.cons_append, Text.trimStart_cons notSpace]
    simpa using notOpening

end Words

/-- Behind the letters at the front of unquoted text stands a further character of it or an index. -/
theorem IsUnquotedText.behind_word {text : Text} (h : IsUnquotedText text) {word more : Text} {c : Char}
    (nonempty : word ≠ []) (chars : ∀ d ∈ word, isNameChar d = true) (shape : text = word ++ c :: more) :
    isTextChar c = true ∨ c = '[' := by
  obtain ⟨source, rest, found⟩ := h
  obtain ⟨-, ⟨first, tail, rfl, -, -, -, run, back, rfl, plain, index⟩, -⟩ := unquotedText_shape found
  obtain ⟨d, letters, rfl⟩ := List.exists_cons_of_ne_nil nonempty
  obtain ⟨-, split⟩ := List.cons.inj shape
  -- What starts with an index is not part of the word.
  have starts (front : Text) (same : back = front ++ c :: more)
      (inWord : ∀ e ∈ front, isNameChar e = true) : c = '[' := by
    have head : back.head? = some '[' := index.resolve_left (by simp [same])
    cases front with
    | nil =>
      rw [same] at head
      exact Option.some.inj head
    | cons e front =>
      rw [same] at head
      obtain rfl : e = '[' := Option.some.inj head
      exact absurd (inWord '[' (by simp)) (by decide)
  rcases List.append_eq_append_iff.mp split with ⟨front, rfl, same⟩ | ⟨front, rfl, same⟩
  · exact .inr (starts front same fun e mem => chars e (by simp [mem]))
  · cases front with
    | nil => exact .inr (starts [] same.symm nofun)
    | cons e front =>
      obtain ⟨rfl, -⟩ := List.cons.inj same
      exact .inl (plain c (by simp))

/-! ### Operands -/

variable {compact : Bool}

/-- A call starts no type constraint where its name is no word of one, or what is in its parentheses
is no part of one. -/
theorem mismatches_typeConstraint_call {name inside : Text} (isName : IsCallName name)
    (notTuple : name ≠ "tuple".toList) (noPrimitive : opensPrimitive name = false)
    (object : name = "object".toList → (objectType typeConstraint).Mismatches (name ++ '(' :: inside))
    (collection : (CollectionType.ofWord? name).isSome = true →
      typeConstraint.Mismatches inside.trimStart) :
    typeConstraint.Mismatches (name ++ '(' :: inside) := by
  have chars : ∀ c ∈ name, isCallChar c = true := by
    obtain ⟨text, rest, found⟩ := isName
    exact (functionName_shape found).2.2.1
  have stops : Text.Stops isNameChar ('(' :: inside) := (Text.stops_cons ..).mpr (by decide)
  -- The name goes on behind a word with a character of its own.
  have call {word : Text} (listed : word ∈ typeCalls) (apart : name ≠ word) :
      (typeWord word).Mismatches (name ++ '(' :: inside) := by
    refine mismatches_typeWord fun rest same => noCall_of_ne stops listed apart ?_ same
    rintro c more rfl
    have callChar := chars c (by simp)
    refine ⟨isWhitespace_of_isCallChar callChar, ?_⟩
    rintro rfl
    exact absurd callChar (by decide)
  refine mismatches_typeConstraint_of (fun collectionType => ?_) ?_ ?_ ?_ ?_
  · by_cases same : name = collectionType.word
    · subst same
      refine Mismatches.behind (typeWord_apply _ inside) (Mismatches.bind (collection ?_) _)
      cases collectionType <;> decide
    · exact (call (by cases collectionType <;> decide) same).bind _
  · by_cases same : name = "object".toList
    · exact object same
    · exact (call (by decide) same).bind _
  · exact call (by decide) notTuple
  · exact fun word listed rest same => goesOn_of_opensPrimitive noPrimitive stops listed same
  · obtain ⟨c, tail, rfl, letter⟩ := isName.starts
    rintro head
    obtain rfl : c = '"' := by simpa using head
    exact absurd letter (by decide)

/-- Unquoted text starts no type constraint where it is no word of one. -/
theorem mismatches_typeConstraint_unquoted {text rest : Text} (plain : IsUnquotedText text)
    (other : text ∉ typeCalls) (noPrimitive : opensPrimitive text = false) (follows : TermEnd rest) :
    typeConstraint.Mismatches (text ++ rest) := by
  have stops : Text.Stops isNameChar rest := follows.stops (by decide)
  -- The text is none of the words of types, so it goes on or ends too early for each of them.
  have call {word : Text} (listed : word ∈ typeCalls) :
      (typeWord word).Mismatches (text ++ rest) := by
    refine mismatches_typeWord fun behind same =>
      noCall_of_ne stops listed (by rintro rfl; exact other listed) (fun c more shape => ?_) same
    have nonempty : word ≠ [] := (by decide : ∀ word ∈ typeCalls, word ≠ []) word listed
    rcases plain.behind_word nonempty (chars_of_typeCalls word listed) shape with isText | rfl
    · have apart := isTextChar_iff.mp isText
      refine ⟨apart.2, ?_⟩
      rintro rfl
      exact absurd apart.1 (by decide)
    · decide
  refine mismatches_typeConstraint_of (fun collectionType => ?_) ?_ ?_ ?_ ?_
  · exact (call (by cases collectionType <;> decide)).bind _
  · exact (call (by decide)).bind _
  · exact call (by decide)
  · exact fun word listed behind same => goesOn_of_opensPrimitive noPrimitive stops listed same
  · obtain ⟨c, tail, rfl, isText⟩ := plain.starts
    rintro head
    obtain rfl : c = '"' := by simpa using head
    exact absurd isText (by decide)

/-- What `opensType` looks at in a call. -/
theorem opensType_call {name : Text} {arguments : List Node}
    (h : opensType (.function (some name) arguments) = false) :
    name ≠ "tuple".toList ∧ opensPrimitive name = false ∧ ∀ argument ∈ arguments.head?,
      (name = "object".toList → opensMembers argument = false)
        ∧ ((CollectionType.ofWord? name).isSome = true → opensType argument = false) := by
  unfold opensType at h
  simp only [Bool.or_eq_false_iff, decide_eq_false_iff_not] at h
  obtain ⟨⟨notTuple, noPrimitive⟩, first⟩ := h
  refine ⟨notTuple, noPrimitive, ?_⟩
  cases arguments with
  | nil => exact nofun
  | cons argument others =>
    rintro _ ⟨⟩
    replace first : (if name = "object".toList then opensMembers argument
        else (CollectionType.ofWord? name).isSome && opensType argument) = false := first
    refine ⟨fun object => ?_, fun collection => ?_⟩
    · rwa [if_pos object] at first
    · have other : name ≠ "object".toList := by
        rintro rfl
        exact absurd collection (by decide)
      rwa [if_neg other, collection, Bool.true_and] at first

section Terms

variable {node term : Node} {others : List Node}

/-- The first term tells whether a value may start as a type does. -/
theorem opensType_terms (h : node.terms = term :: others) : opensType node = opensType term := by
  cases node with
  | unquotedExpression terms =>
    obtain rfl : terms = _ := h
    rfl
  | _ =>
    obtain ⟨rfl, -⟩ := List.cons.inj h
    rfl

/-- It also tells whether a value may start as the members of an object type do. -/
theorem opensMembers_terms (h : node.terms = term :: others) :
    opensMembers node = opensMembers term := by
  cases node with
  | unquotedExpression terms =>
    obtain rfl : terms = _ := h
    rfl
  | _ =>
    obtain ⟨rfl, -⟩ := List.cons.inj h
    rfl

/-- The terms of a value are no larger than the value. -/
theorem sizeOf_le_of_mem_terms (mem : term ∈ node.terms) : sizeOf term ≤ sizeOf node := by
  cases node with
  | unquotedExpression terms =>
    exact Nat.le_of_lt (@sizeOf_lt_of_mem_inside (.unquotedExpression terms) term mem)
  | _ => exact Nat.le_of_eq (congrArg sizeOf (List.mem_singleton.mp mem))

end Terms

/-- No type constraint starts where the operand is printed. -/
def StartsNoType (compact : Bool) (node : Node) : Prop :=
  ∀ layout : Layout, layout.isCompact = compact → ∀ rest, OperandEnd node rest →
    typeConstraint.Mismatches (valueForm layout node ++ rest)

/-- Where `opensType` turns down operands of less than this size, they start no type constraint. -/
def ClosedBelow (compact : Bool) (size : Nat) : Prop :=
  ∀ node : Node, sizeOf node < size → IsOperand node → node.Everywhere (Told compact) →
    opensType node = false → StartsNoType compact node

section Below

variable {size : Nat} {layout : Layout} {rest : Text} (below : ClosedBelow compact size)
  (same : layout.isCompact = compact) (follows : TermEnd rest)

include below same follows

/-- A value starts no type constraint where its operands start none. -/
theorem AreTerms.mismatches_typeConstraint {multiline : Bool} {node : Node}
    (h : AreTerms multiline node.terms) (smaller : sizeOf node < size)
    (told : node.Everywhere (Told compact)) (closed : opensType node = false) :
    typeConstraint.Mismatches (valueForm layout node ++ rest) := by
  obtain ⟨signs, term, others, behind, leads⟩ := h.leads layout follows
  rw [← termsForm_terms, leads.form]
  -- Behind a sign no type starts; without one the first term decides.
  cases signs with
  | nil =>
    have first : node.terms = term :: others := leads.parts
    have mem : term ∈ node.terms := first ▸ List.mem_cons_self
    exact below term (Nat.lt_of_le_of_lt (sizeOf_le_of_mem_terms mem) smaller) leads.operand
      (everywhere_of_mem_terms told mem) (opensType_terms first ▸ closed) layout same behind leads.ends
  | cons sign signs =>
    refine mismatches_typeConstraint_of_stops ((Text.stops_cons ..).mpr ?_)
    rcases leads.isSign sign List.mem_cons_self with rfl | rfl <;> decide

/-- Nor does an argument of a call. -/
theorem IsElement.mismatches_typeConstraint {node : Node} (h : IsElement node)
    (smaller : sizeOf node < size) (told : node.Everywhere (Told compact))
    (closed : opensType node = false) :
    typeConstraint.Mismatches (valueForm layout node ++ rest) := by
  cases h with
  | comment comment =>
    refine mismatches_typeConstraint_of_stops (comment.starts.stops (fun c marker => ?_) rest)
    simp only [Bool.or_eq_true, beq_iff_eq] at marker
    rcases marker with rfl | rfl <;> decide
  | @value terms areTerms =>
    rw [← areTerms.terms_ofTerms] at areTerms
    exact areTerms.mismatches_typeConstraint below same follows smaller told closed

end Below

/-- An object type has a brace behind its parenthesis. -/
theorem mismatches_objectType_head {text : Text} (h : text.trimStart.head? ≠ some '{') :
    (objectType typeConstraint).Mismatches ("object".toList ++ '(' :: text) :=
  Mismatches.behind (typeWord_apply _ _) (Mismatches.bind (mismatches_char_iff.mpr h) _)

section Members

variable {size : Nat} (below : ClosedBelow compact size)

include below

/-- An entry of a map that is no member is not read as one. -/
theorem mismatches_member {entry : Node} (h : IsDeclaration entry) (smaller : sizeOf entry < size)
    (told : entry.Everywhere (Told compact)) (notMember : entry.isMember = false)
    (closed : opensMember entry = false) {layout : Layout} (same : layout.isCompact = compact)
    {rest : Text} (follows : DeclarationEnd layout rest) :
    memberRule.Mismatches ((entry.lead ++ valueForm layout entry) ++ rest) := by
  cases h with
  | comment comment =>
    cases entry <;> first | exact absurd comment id | exact Bool.noConfusion notMember
  | @block header declarations isHeader =>
    obtain ⟨tail, form⟩ := @bodyForm_starts layout (forms layout.nested declarations)
    have whole : (Node.block header declarations).lead
          ++ valueForm layout (.block header declarations) ++ rest
        = header.source ++ ' ' :: '{' :: (tail ++ rest) := by
      rw [valueForm_block, lead, form]
      simp
    rw [whole]
    exact mismatches_member_block isHeader told.here _
  | @property name terms isName areTerms =>
    obtain ⟨kind, value, shape, -, parts, form⟩ := areTerms.propertyOfTerms_eq name
    rw [shape] at smaller told closed ⊢
    have noSpace : Text.Stops isWhitespace (valueForm layout value ++ rest) := by
      rw [form layout]
      exact areTerms.starts.stops (fun _ starts =>
        isWhitespace_of_startsItem (startsItem_of_startsTerm starts)) rest
    -- A value that may not start as a type does not, as it is smaller than what is compared.
    have within : sizeOf value < size :=
      Nat.lt_trans (@sizeOf_lt_of_mem_inside (.property kind name value) value List.mem_cons_self) smaller
    have whole : (Node.property kind name value).lead
          ++ valueForm layout (.property kind name value) ++ rest
        = name.source ++ ' ' :: '=' :: ' ' :: (valueForm layout value ++ rest) := by
      simp [lead, valueForm_property]
    rw [whole]
    rw [← parts] at areTerms
    exact mismatches_member_property isName told.here.1 noSpace (areTerms.mismatches_typeConstraint below
      same follows.expressionEnd.1 within (told.of_mem_inside List.mem_cons_self) closed)
  | typed => exact absurd notMember (by simp [isMember])

/-- A map whose entries are no members is no part of an object type. -/
theorem mismatches_objectType_map {entries : List Node} (inside : ∀ entry ∈ entries, IsDeclaration entry)
    (smaller : sizeOf (Node.map entries) < size) (told : (Node.map entries).Everywhere (Told compact))
    (closed : entriesOpen entries = false) {layout : Layout} (same : layout.isCompact = compact)
    {text rest : Text} (form : text.trimStart = valueForm layout (.map entries) ++ rest) :
    (objectType typeConstraint).Mismatches ("object".toList ++ '(' :: text) := by
  subst same
  have nonempty : entries ≠ [] := by
    rintro rfl
    exact absurd closed (by simp [entriesOpen])
  have nested : layout.nested.isCompact = layout.isCompact := Layout.isCompact_nested layout
  -- The members end in front of an entry that is none, where a closing brace is missing.
  obtain ⟨found, left, stops, notClosed⟩ := @members_stop layout.nested entries inside
    (fun entry mem => nested ▸ told.of_mem_inside mem)
    (fun entry mem notMember closed rest follows => mismatches_member below (inside entry mem)
      (Nat.lt_trans (@sizeOf_lt_of_mem_inside (.map entries) entry mem) smaller)
      (told.of_mem_inside mem) notMember closed nested follows)
    closed (closingBreak layout ++ '}' :: rest) (sequenceEnd_brace rest).toDeclarationEnd
    (openingBreak layout) allSpace_openingBreak
  have brackets : valueForm layout (.map entries) ++ rest
      = '{' :: (openingBreak layout ++ (sequenceForm layout.nested (forms layout.nested entries)
        ++ (closingBreak layout ++ '}' :: rest))) := by
    rw [valueForm_map, bodyForm_eq (by simpa [forms_eq_map] using nonempty)]
    simp
  refine Mismatches.behind (typeWord_apply _ _) ?_
  rw [form, brackets]
  refine Mismatches.behind (char_cons '{' _) (Mismatches.behind stops
    (Mismatches.behind (whitespace_apply left) (Mismatches.bind ?_ _)))
  exact mismatches_char_iff.mpr notClosed

/-- An argument that starts with no members is no part of an object type. -/
theorem IsElement.mismatches_objectType {argument : Node} (h : IsElement argument)
    (smaller : sizeOf argument < size) (told : argument.Everywhere (Told compact))
    (closed : opensMembers argument = false) {layout : Layout} (same : layout.isCompact = compact)
    {text rest : Text} (follows : TermEnd rest)
    (form : text.trimStart = valueForm layout argument ++ rest) :
    (objectType typeConstraint).Mismatches ("object".toList ++ '(' :: text) := by
  cases h with
  | comment comment =>
    obtain ⟨c, tail, starts, marker⟩ : StartsWith _ (valueForm layout argument) := comment.starts
    have noBrace : c ≠ '{' := by
      rintro rfl
      exact absurd marker (by decide)
    refine mismatches_objectType_head ?_
    rw [form, starts]
    simpa using noBrace
  | @value terms areTerms =>
    obtain ⟨signs, node, others, behind, leads⟩ := areTerms.leads layout follows
    rw [valueForm_ofTerms, leads.form] at form
    -- Only a map without a sign in front of it starts as the members do.
    cases signs with
    | cons sign signs =>
      refine mismatches_objectType_head ?_
      rw [form]
      rintro ⟨⟩
      rcases leads.isSign '{' List.mem_cons_self with same | same <;> exact absurd same (by decide)
    | nil =>
      have first : (ofTerms terms).terms = node :: others := areTerms.terms_ofTerms.trans leads.parts
      have mem : node ∈ (ofTerms terms).terms := first ▸ List.mem_cons_self
      obtain ⟨c, tail, starts, opens⟩ := leads.operand.opening layout
      by_cases brace : c = '{'
      · rw [opensMembers_terms first] at closed
        cases node with
        | map entries =>
          cases leads.operand with
          | map inside =>
            exact mismatches_objectType_map below inside
              (Nat.lt_of_le_of_lt (sizeOf_le_of_mem_terms mem) smaller)
              (everywhere_of_mem_terms told mem) closed same form
        | forLoop => exact Bool.noConfusion closed
        | _ => exact Bool.noConfusion (opens.brace brace)
      · refine mismatches_objectType_head ?_
        rw [form, starts]
        simpa using brace

end Members

/-! ### All operands -/

/-- An operand starts no type constraint. -/
theorem startsNoType_of_opensType {node : Node} (h : IsOperand node)
    (told : node.Everywhere (Told compact)) (closed : opensType node = false) :
    StartsNoType compact node := by
  -- What is in the parentheses of a collection or object type is smaller.
  induction size : sizeOf node using Nat.strong_induction_on generalizing node with
  | _ count ih =>
  have below : ClosedBelow compact count := fun node smaller isOperand told closed =>
    ih _ smaller isOperand told closed rfl
  intro layout same rest ends
  have mark {c : Char} (apart : (isAlphabetic c || c == '"') = false)
      (starts : ∃ tail, valueForm layout node = c :: tail) :
      typeConstraint.Mismatches (valueForm layout node ++ rest) := by
    obtain ⟨tail, starts⟩ := starts
    rw [starts]
    exact mismatches_typeConstraint_of_stops ((Text.stops_cons ..).mpr apart)
  cases h with
  | @call name arguments isName inside =>
    obtain ⟨notTuple, noPrimitive, first⟩ := opensType_call closed
    -- What stands behind the parenthesis only counts behind the word of a collection or object type.
    suffices ∃ behind : Text,
        valueForm layout (.function (some name) arguments) ++ rest = name ++ '(' :: behind
          ∧ (name = "object".toList → (objectType typeConstraint).Mismatches (name ++ '(' :: behind))
          ∧ ((CollectionType.ofWord? name).isSome = true →
            typeConstraint.Mismatches behind.trimStart) by
      obtain ⟨behind, form, object, collection⟩ := this
      exact form ▸ mismatches_typeConstraint_call isName notTuple noPrimitive object collection
    rw [valueForm_function, Option.getD_some, List.append_assoc]
    cases arguments with
    | nil =>
      rw [argumentsForm_oneLine (by simp [needsLines])]
      have closes : Text.trimStart (')' :: rest) = ')' :: rest := Text.trimStart_cons (by decide) rest
      refine ⟨')' :: rest, rfl, ?_, fun _ => ?_⟩
      · rintro rfl
        exact mismatches_objectType_head (by rw [closes]; simp)
      · rw [closes]
        exact mismatches_typeConstraint_of_stops ((Text.stops_cons ..).mpr (by decide))
    | cons argument others =>
      obtain ⟨element, -⟩ := List.forall_mem_cons.mp inside
      obtain ⟨around, space, c, tail, kept, allSpace, listed, -, form⟩ :=
        @argumentsForm_cons layout argument others element
      obtain ⟨members, type⟩ := first argument rfl
      have starts : StartsWith startsItem (valueForm around argument) := element.starts
      have follows : TermEnd (c :: tail ++ rest) :=
        have ends : ∀ c ∈ [',', ')', '\n'], c ∈ termEnds ∧ Text.isInline c = false := by decide
        termEnd_cons (ends c listed).1 (ends c listed).2
      have smaller : sizeOf argument < count := size ▸ @sizeOf_lt_of_mem_inside
        (.function (some name) (argument :: others)) argument List.mem_cons_self
      have toldArgument := told.of_mem_inside (List.mem_cons_self (l := others))
      have trims : Text.trimStart (space ++ (valueForm around argument ++ (c :: tail ++ rest)))
          = valueForm around argument ++ (c :: tail ++ rest) := by
        rw [Text.trimStart_append allSpace, starts.trimStart]
      rw [form, List.cons_append, List.append_assoc, List.append_assoc]
      refine ⟨_, rfl, ?_, fun collection => ?_⟩
      · rintro rfl
        exact element.mismatches_objectType below smaller toldArgument (members rfl)
          (kept.trans same) follows trims
      · rw [trims]
        exact element.mismatches_typeConstraint below (kept.trans same) follows smaller toldArgument
          (type collection)
  | group =>
    refine mark (c := '(') (by decide) ?_
    rw [valueForm_function, argumentsForm]
    split <;> exact ⟨_, rfl⟩
  | @loop loop _ brackets =>
    exact mark ((by decide : ∀ pair ∈ loopBrackets, (isAlphabetic pair.1 || pair.1 == '"') = false) _
      brackets) ⟨_, rfl⟩
  | list => exact mark (c := '[') (by decide) (listForm_starts _)
  | map => exact mark (c := '{') (by decide) (bodyForm_starts _)
  | heredoc => exact mark (c := '<') (by decide) ⟨_, rfl⟩
  | string => exact mismatches_typeConstraint_quote told.here (by simpa [opensType] using closed) rest
  | numberOrBool literal => exact mismatches_typeConstraint_literal literal rest
  | unquoted plain =>
    rw [opensType, Bool.or_eq_false_iff] at closed
    rw [valueForm_unquotedString]
    exact mismatches_typeConstraint_unquoted plain (by simpa using closed.1) closed.2 ends

/-- A value that starts no type constraint is not read as one. -/
theorem untyped_of_opensType {value : Node} (areTerms : AreTerms false value.terms)
    (told : value.Everywhere (Told compact)) (closed : opensType value = false) :
    Untyped compact value := by
  intro layout same rest follows
  have noType := areTerms.mismatches_typeConstraint (fun _ _ => startsNoType_of_opensType) same
    follows.expressionEnd.1 (Nat.lt_succ_self _) told closed
  exact noType.bind _

end HclSyntax.Grammar
