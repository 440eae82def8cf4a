import HclSyntax.Proofs.RoundTrip.Sequence

/-!
# `HclSyntax.Proofs.RoundTrip.TypeConstraint`: type constraints are read back

A type constraint is read back before any text that does not go on with its name (`type_reads`). The
members of an object type and the elements of a tuple type are printed and read as a `Series`; the
words in front of the parentheses tell the kinds apart.
-/

set_option autoImplicit false

namespace HclSyntax.Grammar

open Rule Node

variable {layout : Layout}

/-- The printed node is read as the type constraint it is. -/
def TypeReads (layout : Layout) (node : Node) : Prop :=
  ∀ rest, Text.Stops isNameChar rest →
    typeConstraint (valueForm layout node ++ rest) = .matched node rest

/-! ### The words of types -/

/-- The word of a type is taken with its parenthesis and the white space behind it. -/
theorem typeWord_apply (name inside : Text) :
    typeWord name (name ++ '(' :: inside) = .matched () inside.trimStart := by
  refine bind_matched_iff.mpr ⟨_, _, word_append name _, ?_⟩
  simp only [bind_matched_iff, whitespace_matched_iff]
  refine ⟨(), _, rfl, '(', inside, ?_, rfl⟩
  rw [Text.trimStart_cons (by decide)]
  exact char_cons '(' inside

/-- The same where no white space follows the parenthesis. -/
theorem typeWord_append (name : Text) {inside : Text} (notSpace : Text.Stops isWhitespace inside) :
    typeWord name (name ++ '(' :: inside) = .matched () inside := by
  rw [typeWord_apply, Text.trimStart_of_stops notSpace]

section Words

variable {inner : Rule Node} {text : Text}

/-- The type of a collection starts with its word. -/
theorem mismatches_collectionType {collection : CollectionType}
    (h : ¬ collection.word <+: text) : (collectionType inner collection).Mismatches text :=
  Mismatches.bind (Mismatches.bind (mismatches_word_iff.mpr h) _) _

/-- An object type starts with its word. -/
theorem mismatches_objectType (h : ¬ "object".toList <+: text) :
    (objectType inner).Mismatches text :=
  Mismatches.bind (Mismatches.bind (mismatches_word_iff.mpr h) _) _

/-- A tuple type starts with its word. -/
theorem mismatches_tupleType (h : ¬ "tuple".toList <+: text) :
    (tupleType inner).Mismatches text :=
  Mismatches.bind (Mismatches.bind (mismatches_word_iff.mpr h) _) _

/-- A text does not start with a word that has another first character. -/
theorem not_prefix_of_head {name : Text} {c d : Char} (word : name.head? = some c)
    (starts : text.head? = some d) (apart : d ≠ c) : ¬ name <+: text := by
  rintro ⟨rest, rfl⟩
  obtain ⟨tail, rfl⟩ := List.head?_eq_some_iff.mp word
  exact apart (Option.some.inj starts).symm

end Words

/-! ### Primitive types -/

/-- A text that starts with none of the words is a primitive type, if any. -/
theorem typeConstraint_primitive {text : Text} {c : Char} (starts : text.head? = some c)
    (apart : c ∉ ['m', 'o', 'l', 't']) (notSet : ¬ CollectionType.set.word <+: text) :
    typeConstraint text = primitiveType text := by
  have no (d : Char) (name : Text) (first : name.head? = some d) (listed : d ∈ ['m', 'o', 'l', 't']) :
      ¬ name <+: text :=
    not_prefix_of_head first starts fun same => apart (same ▸ listed)
  rw [typeConstraint_eq, typeConstraintOver,
    orElse_of_mismatches (mismatches_collectionType (no 'm' _ rfl (by decide))),
    orElse_of_mismatches (mismatches_objectType (no 'o' _ rfl (by decide))),
    orElse_of_mismatches (mismatches_collectionType (no 'l' _ rfl (by decide))),
    orElse_of_mismatches (mismatches_collectionType notSet),
    orElse_of_mismatches (mismatches_tupleType (no 't' _ rfl (by decide)))]

/-- The name of a primitive type is read where it does not go on. -/
theorem primitiveName_append {name rest : Text} (listed : name ∈ primitiveWords)
    (stops : Text.Stops isNameChar rest) : primitiveName (name ++ rest) = .matched name rest := by
  -- The four names start with different letters.
  have apart (c d : Char) {name text : Text} (first : name.head? = some c)
      (starts : text.head? = some d) (other : d ≠ c) : (word name).Mismatches text :=
    mismatches_word_iff.mpr (not_prefix_of_head first starts other)
  have words : (word "string".toList <|> word "number".toList <|> word "bool".toList
      <|> word "any".toList) (name ++ rest) = .matched name rest := by
    simp only [primitiveWords, List.mem_cons, List.not_mem_nil, or_false] at listed
    rcases listed with rfl | rfl | rfl | rfl
    · exact orElse_of_matched (word_append _ rest) _
    · rw [orElse_of_mismatches (apart 's' 'n' rfl rfl (by decide))]
      exact orElse_of_matched (word_append _ rest) _
    · rw [orElse_of_mismatches (apart 's' 'b' rfl rfl (by decide)),
        orElse_of_mismatches (apart 'n' 'b' rfl rfl (by decide))]
      exact orElse_of_matched (word_append _ rest) _
    · rw [orElse_of_mismatches (apart 's' 'a' rfl rfl (by decide)),
        orElse_of_mismatches (apart 'n' 'a' rfl rfl (by decide)),
        orElse_of_mismatches (apart 'b' 'a' rfl rfl (by decide))]
      exact word_append _ rest
  refine bind_matched_iff.mpr ⟨name, rest, words, bind_matched_iff.mpr ⟨(), rest, ?_, rfl⟩⟩
  exact notFollowedBy_matched_iff.mpr ⟨mismatches_charWhere_iff.mpr stops, rfl⟩

/-- A primitive type without quotes is read back in front of anything but a name. -/
theorem primitiveType_bare {name rest : Text} (listed : name ∈ primitiveWords)
    (stops : Text.Stops isNameChar rest) :
    primitiveType (name ++ rest) = .matched (.primitiveType name false) rest :=
  orElse_of_matched
    (map_of_matched (primitiveName_append listed stops) fun name => Node.primitiveType name false) _

/-- A primitive type in quotes is read back in front of anything. -/
theorem primitiveType_quoted {name : Text} (listed : name ∈ primitiveWords) (rest : Text) :
    primitiveType ('"' :: (name ++ '"' :: rest)) = .matched (.primitiveType name true) rest := by
  have noName : primitiveName.Mismatches ('"' :: (name ++ '"' :: rest)) := by
    have no {word : Text} {c : Char} (first : word.head? = some c) (apart : '"' ≠ c) :=
      mismatches_word_iff.mpr (@not_prefix_of_head ('"' :: (name ++ '"' :: rest)) word c '"' first
        rfl apart)
    refine Mismatches.bind ?_ _
    simp only [mismatches_orElse_iff]
    exact ⟨no rfl (by decide), no rfl (by decide), no rfl (by decide), no rfl (by decide)⟩
  rw [primitiveType, orElse_of_mismatches (noName.bind _)]
  have stops : Text.Stops isNameChar ('"' :: rest) := (Text.stops_cons ..).mpr (by decide)
  refine bind_matched_iff.mpr ⟨_, _, char_cons '"' _, bind_matched_iff.mpr ⟨name, _,
    primitiveName_append listed stops, ?_⟩⟩
  exact bind_of_matched (char_cons '"' rest)

/-- Nothing in the words for the primitive types needs an escape. -/
theorem quote_primitive {name : Text} (listed : name ∈ primitiveWords) :
    name.quote = '"' :: (name ++ ['"']) ∧ name.sequencesEnd = true := by
  have each : ∀ word ∈ primitiveWords,
      Text.quote word = '"' :: (word ++ ['"']) ∧ Text.sequencesEnd word = true := by
    decide +kernel
  exact each name listed

/-- A primitive type is read back, in quotes or without. -/
theorem primitive_reads {name : Text} (listed : name ∈ primitiveWords) (quoted : Bool) :
    TypeReads layout (.primitiveType name quoted) := by
  intro rest stops
  rw [valueForm_primitiveType]
  cases quoted with
  | false =>
    have facts : ∀ word ∈ primitiveWords, ∃ c tail, word = c :: tail ∧ c ∉ ['m', 'o', 'l', 't'] := by
      simp [primitiveWords]
    have apart : ∀ word ∈ primitiveWords, 3 ≤ word.length ∧ ¬ CollectionType.set.word <+: word := by
      decide
    obtain ⟨c, tail, shape, noWord⟩ := facts name listed
    have notSet : ¬ CollectionType.set.word <+: name ++ rest := fun starts =>
      (apart name listed).2
        (List.prefix_of_prefix_length_le starts (List.prefix_append ..) (apart name listed).1)
    rw [if_neg Bool.false_ne_true, @typeConstraint_primitive _ c (by simp [shape]) noWord notSet]
    exact primitiveType_bare listed stops
  | true =>
    rw [if_pos rfl, (quote_primitive listed).1, List.cons_append, List.append_assoc,
      List.singleton_append, @typeConstraint_primitive _ '"' rfl (by decide)
        (@not_prefix_of_head _ _ 's' '"' rfl rfl (by decide))]
    exact primitiveType_quoted listed rest

/-! ### Collections -/

/-- The rule for a collection takes the constraint inside it. -/
theorem collectionType_append {collection : CollectionType} {element : Node} {inside rest : Text}
    (notSpace : Text.Stops isWhitespace inside)
    (reads : typeConstraint inside = .matched element (')' :: rest)) :
    collectionType typeConstraint collection (collection.word ++ '(' :: inside)
      = .matched (.collectionType collection element) rest := by
  refine bind_matched_iff.mpr ⟨(), inside, typeWord_append _ notSpace, bind_matched_iff.mpr
    ⟨element, _, reads, bind_matched_iff.mpr ⟨(), ')' :: rest, ?_,
      bind_of_matched (char_cons ')' rest)⟩⟩⟩
  rw [whitespace_apply, Text.trimStart_cons (by decide)]

/-- A type constraint does not start with white space. -/
theorem IsType.starts {node : Node} (h : IsType node) :
    StartsWith (fun c => isAlphabetic c || c == '"') (valueForm layout node) := by
  cases h with
  | @primitive name quoted listed =>
    have each : ∀ word ∈ primitiveWords, ∃ c rest, word = c :: rest ∧ isAlphabetic c = true := by
      simp [primitiveWords]
      decide
    obtain ⟨c, rest, rfl, letter⟩ := each name listed
    rw [valueForm_primitiveType]
    cases quoted with
    | false => exact ⟨c, rest, rfl, by simp [letter]⟩
    | true => exact ⟨'"', _, rfl, by decide⟩
  | @collection collection =>
    cases collection with
    | map => exact ⟨'m', _, rfl, by decide⟩
    | list => exact ⟨'l', _, rfl, by decide⟩
    | set => exact ⟨'s', _, rfl, by decide⟩
  | object => exact ⟨'o', _, rfl, by decide⟩
  | tuple => exact ⟨'t', _, rfl, by decide⟩

/-- A printed type does not start with white space. -/
theorem IsType.noSpace {node : Node} (h : IsType node) (rest : Text) :
    Text.Stops isWhitespace (valueForm layout node ++ rest) := by
  refine h.starts.stops (fun c starts => ?_) rest
  simp only [Bool.or_eq_true, beq_iff_eq] at starts
  rcases starts with letter | rfl
  · exact isWhitespace_of_isAlphanumeric (isAlphanumeric_of_isAlphabetic letter)
  · decide

/-- A type constraint leaves nothing behind it. -/
theorem IsType.noOverhang {node : Node} (h : IsType node) : overhang layout node.terms = [] := by
  cases h <;> exact overhang_of_notHeredoc rfl

/-- A collection type is read back when the constraint inside it is. -/
theorem collection_reads {collection : CollectionType} {element : Node} (isType : IsType element)
    (reads : TypeReads layout element) :
    TypeReads layout (.collectionType collection element) := by
  intro rest _
  have inside := reads (')' :: rest) ((Text.stops_cons ..).mpr (by decide))
  have takes := @collectionType_append collection _ _ _ (isType.noSpace (')' :: rest)) inside
  have no {name : Text} {c d : Char} {text : Text} (first : name.head? = some c)
      (starts : text.head? = some d) (apart : d ≠ c) := not_prefix_of_head first starts apart
  rw [valueForm_collectionType, typeConstraint_eq, typeConstraintOver]
  simp only [List.append_assoc, List.cons_append, List.nil_append]
  -- The rules are tried in the order map, object, list, set; the first letter turns down those
  -- before.
  cases collection with
  | map => exact orElse_of_matched takes _
  | list =>
    rw [orElse_of_mismatches (mismatches_collectionType (no (c := 'm') (d := 'l') rfl rfl (by decide))),
      orElse_of_mismatches (mismatches_objectType (no (c := 'o') (d := 'l') rfl rfl (by decide)))]
    exact orElse_of_matched takes _
  | set =>
    rw [orElse_of_mismatches (mismatches_collectionType (no (c := 'm') (d := 's') rfl rfl (by decide))),
      orElse_of_mismatches (mismatches_objectType (no (c := 'o') (d := 's') rfl rfl (by decide))),
      orElse_of_mismatches (mismatches_collectionType (no (c := 'l') (d := 's') rfl rfl (by decide)))]
    exact orElse_of_matched takes _

/-! ### Where no type constraint starts -/

/-- A primitive type is one of the names. -/
theorem mismatches_primitiveName {text : Text} (h : ∀ name ∈ primitiveWords, ¬ name <+: text) :
    primitiveName.Mismatches text := by
  have no (name : Text) (listed : name ∈ primitiveWords) := mismatches_word_iff.mpr (h name listed)
  refine Mismatches.bind ?_ _
  simp only [mismatches_orElse_iff]
  exact ⟨no _ (by decide), no _ (by decide), no _ (by decide), no _ (by decide)⟩

/-- The words that a type constraint without quotes starts with. -/
def typeWords : List Text :=
  ["map".toList, "object".toList, "list".toList, "set".toList, "tuple".toList] ++ primitiveWords

/-- Without quotes a type constraint starts with one of the words. -/
theorem mismatches_typeConstraint {text : Text} (h : ∀ name ∈ typeWords, ¬ name <+: text)
    (noQuote : text.head? ≠ some '"') : typeConstraint.Mismatches text := by
  have mismatch : (typeConstraintOver typeConstraint).Mismatches text := by
    simp only [typeConstraintOver, mismatches_orElse_iff]
    refine ⟨mismatches_collectionType (h _ (by decide)), mismatches_objectType (h _ (by decide)),
      mismatches_collectionType (h _ (by decide)), mismatches_collectionType (h _ (by decide)),
      mismatches_tupleType (h _ (by decide)), mismatches_orElse_iff.mpr ⟨?_, ?_⟩⟩
    · exact Mismatches.bind (mismatches_primitiveName fun name listed =>
        h name (List.mem_append_right _ listed)) _
    · exact Mismatches.bind (mismatches_char_iff.mpr noQuote) _
  obtain ⟨rest, gaveUp⟩ := mismatch
  exact ⟨rest, (typeConstraint_eq text).trans gaveUp⟩

/-- A type constraint starts with a letter or a quote. -/
theorem mismatches_typeConstraint_of_stops {text : Text}
    (stops : Text.Stops (fun c => isAlphabetic c || c == '"') text) :
    typeConstraint.Mismatches text := by
  refine mismatches_typeConstraint ?_ (stops.head_ne (by decide))
  rintro name listed ⟨rest, rfl⟩
  have letters : ∀ name ∈ typeWords, ∃ c tail, name = c :: tail ∧ isAlphabetic c = true := by
    simp [typeWords, primitiveWords]
    decide
  obtain ⟨c, tail, rfl, letter⟩ := letters name listed
  have outside := stops c rfl
  simp [letter] at outside

/-! ### Tuple types -/

/-- The bracket behind the parts of a type, and the parenthesis behind it. -/
theorem closing_parenthesis {left : Text} (hleft : Text.AllSpace left) {bracket : Char}
    (notSpace : isWhitespace bracket = false) {node : Node} (rest : Text) :
    (do
      whitespace
      let _ ← char bracket
      whitespace
      let _ ← char ')'
      return node : Rule Node) (left ++ bracket :: ')' :: rest) = .matched node rest := by
  have first : Text.trimStart (left ++ bracket :: ')' :: rest) = bracket :: ')' :: rest := by
    rw [Text.trimStart_append hleft, Text.trimStart_cons notSpace]
  have second : Text.trimStart (')' :: rest) = ')' :: rest := Text.trimStart_cons (by decide) _
  refine bind_matched_iff.mpr ⟨(), _, whitespace_matched_iff.mpr first, bind_matched_iff.mpr
    ⟨bracket, _, char_cons bracket _, bind_matched_iff.mpr ⟨(), _, whitespace_matched_iff.mpr second,
      bind_of_matched (char_cons ')' rest)⟩⟩⟩

/-- The element types of a tuple type. -/
def tupleSeries (layout : Layout) : Series Node where
  item := typeConstraint
  gap := whitespace
  comma := char ','
  margin := []
  glue := [' ']
  form := valueForm layout
  separator _ := [',']
  overhang _ := []

/-- The rule for a tuple type takes the elements and both brackets. -/
theorem tupleType_append {elements : List Node} {inside left rest : Text}
    (reads : (tupleSeries layout).rule inside = .matched elements (left ++ ']' :: ')' :: rest))
    (hleft : Text.AllSpace left) :
    tupleType typeConstraint ("tuple".toList ++ '(' :: '[' :: inside)
      = .matched (.tupleType elements) rest := by
  refine bind_matched_iff.mpr ⟨(), '[' :: inside,
    typeWord_append _ ((Text.stops_cons ..).mpr (by decide)),
    bind_matched_iff.mpr ⟨_, _, char_cons '[' inside, bind_matched_iff.mpr ⟨elements, _, reads, ?_⟩⟩⟩
  exact closing_parenthesis hleft (by decide) rest

/-- The element types fit into their series. -/
theorem tupleSeries_fits {elements : List Node} (inside : ∀ element ∈ elements, IsType element)
    (reads : ∀ element ∈ elements, TypeReads layout element) (rest : Text) :
    (tupleSeries layout).Fits (fun _ => Text.Stops isNameChar) elements (']' :: rest) where
  margin := Text.allSpace_nil
  glue := by
    simp [tupleSeries, Text.AllSpace]
    decide
  item := inferInstanceAs (Descends typeConstraint)
  gap := inferInstanceAs (Descends whitespace)
  comma := inferInstanceAs (Descends (char ','))
  overhang _ _ := Text.allSpace_nil
  starts element mem := by
    obtain ⟨c, tail, shape, starts⟩ : StartsWith _ (valueForm layout element) :=
      (inside element mem).starts
    have noSpace : Text.Stops isWhitespace (valueForm layout element ++ []) :=
      (inside element mem).noSpace []
    rw [shape] at noSpace
    exact ⟨c, tail, shape, noSpace c rfl⟩
  reads := reads
  between _ _ _ _ _ := (Text.stops_cons ..).mpr (by decide)
  separates element mem next hnext more :=
    ⟨some ',', [' '], by simp [Text.AllSpace]; decide,
      @comma_matched [] (' ' :: (valueForm layout next ++ more)) Text.allSpace_nil⟩
  atEnd _ _ := (Text.stops_cons ..).mpr (by decide)
  noComma _ _ := comma_mismatches (by
    change (Text.trimStart (']' :: rest)).head? ≠ some ','
    rw [Text.trimStart_cons (by decide)]
    simp)
  ends := by
    rw [Text.trimStart_cons (by decide)]
    exact mismatches_typeConstraint_of_stops ((Text.stops_cons ..).mpr (by decide))

/-- The element types of a tuple type are read back up to its bracket. -/
theorem tupleSeries_text {elements : List Node} (inside : ∀ element ∈ elements, IsType element)
    (reads : ∀ element ∈ elements, TypeReads layout element) (rest : Text) :
    ∃ left, Text.AllSpace left
      ∧ (tupleSeries layout).rule ((tupleSeries layout).text elements ++ ']' :: rest)
        = .matched elements (left ++ ']' :: rest) := by
  have fits := tupleSeries_fits inside reads rest
  cases elements with
  | nil =>
    exact ⟨[], Text.allSpace_nil, Series.rule_of_mismatches fits.ends Text.allSpace_nil⟩
  | cons element others => exact Series.rule_text fits Text.allSpace_nil

/-- A tuple type is read back where its element types are. -/
theorem tuple_reads {elements : List Node} (inside : ∀ element ∈ elements, IsType element)
    (reads : ∀ element ∈ elements, TypeReads layout element) :
    TypeReads layout (.tupleType elements) := by
  intro rest _
  have brackets : "tuple([".toList = "tuple".toList ++ ['(', '['] := by decide
  have series : Text.join [',', ' '] ((forms layout elements).map Prod.snd)
      = (tupleSeries layout).text elements := by
    rw [forms_map_snd]
    exact join_map_eq_text (fun _ _ => rfl) fun _ _ => rfl
  obtain ⟨left, allSpace, taken⟩ := tupleSeries_text inside reads (')' :: rest)
  have takes := tupleType_append taken allSpace
  have no {name : Text} {c : Char} (first : name.head? = some c) (apart : 't' ≠ c) :=
    @not_prefix_of_head ("tuple".toList ++ '(' :: '[' :: ((tupleSeries layout).text elements
      ++ ']' :: ')' :: rest)) name c 't' first rfl apart
  rw [valueForm_tupleType, brackets, series, typeConstraint_eq, typeConstraintOver]
  simp only [List.append_assoc, List.cons_append, List.nil_append]
  rw [orElse_of_mismatches (mismatches_collectionType (no rfl (by decide))),
    orElse_of_mismatches (mismatches_objectType (no rfl (by decide))),
    orElse_of_mismatches (mismatches_collectionType (no rfl (by decide))),
    orElse_of_mismatches (mismatches_collectionType (no rfl (by decide)))]
  exact orElse_of_matched takes _

/-! ### Object types -/

/-- What is read inside an object type. -/
def memberRule : Rule Node :=
  comment <|> typeMember typeConstraint

/-- A name is no comment. -/
theorem mismatches_comment_name {name : Name} (h : IsName name) (rest : Text) :
    comment.Mismatches (name.source ++ rest) := by
  have marks : ∀ c, startsName c = true → (c == '#' || c == '/') = false := by
    intro c starts
    rw [← Bool.not_eq_true]
    simp only [Bool.or_eq_true, beq_iff_eq]
    rintro (rfl | rfl) <;> exact absurd starts (by decide)
  have stops := h.starts.stops marks rest
  exact mismatches_comment (stops.head_ne (by decide)) (stops.head_ne (by decide))

/-- A member with a type is read back. -/
theorem member_reads {name : Name} {constraint : Node} (isName : IsName name) (ends : NameEnds name)
    (isType : IsType constraint) (reads : TypeReads layout constraint) :
    ItemReads memberRule layout (.property .type name constraint) := by
  intro rest follows
  rw [property_form, isType.noOverhang, List.nil_append, memberRule,
    orElse_of_mismatches (mismatches_comment_name isName _)]
  exact bind_matched_iff.mpr ⟨name, _, propertyName_assignment isName ends _,
    bind_matched_iff.mpr ⟨(), _, equals_append (isType.noSpace rest),
      bind_of_matched (reads rest (follows.stops (by decide)))⟩⟩

/-- A comment is read back as a member. -/
theorem memberComment_reads {node : Node} (h : IsComment node)
    (faithful : Faithful layout.isCompact node) : ItemReads memberRule layout node := by
  intro rest follows
  obtain ⟨noLead, noOverhang, -⟩ := @IsComment.bare layout node h
  rw [noLead, noOverhang, List.nil_append, List.nil_append]
  exact orElse_of_matched (comment_form h faithful (follows.lineEnd node)) _

/-- The members of an object type are read back. -/
theorem memberSequence_reads {members : List Node} (inside : ∀ member ∈ members, IsMember member)
    (reads : ∀ member ∈ members, ItemReads memberRule layout member) :
    SequenceReads layout memberRule inlineWhitespace (char ',') members where
  itemDescends := inferInstanceAs (Descends (comment <|> typeMember typeConstraint))
  gapDescends := inferInstanceAs (Descends inlineWhitespace)
  commaDescends := inferInstanceAs (Descends (char ','))
  shape member mem := by
    cases inside member mem with
    | comment comment => exact .comment comment
    | typed isName isType => exact .typed isName isType
  reads := reads
  commaReads member mem rest := by
    -- Only the value of a property leaves anything behind, and a type is no heredoc.
    have noOverhang : declarationOverhang layout member = [] := by
      cases inside member mem with
      | comment comment => exact comment.bare.2.1
      | typed _ isType => exact isType.noOverhang
    rw [noOverhang, List.nil_append]
    refine bind_matched_iff.mpr ⟨(), ',' :: rest, ?_, char_cons ',' rest⟩
    rw [inlineWhitespace_apply, Text.trimInline_of_stops ((Text.stops_cons ..).mpr (by decide))]
  noComma text h := by
    refine Mismatches.behind (inlineWhitespace_apply text) (mismatches_char_iff.mpr fun head => ?_)
    exact h ',' (Text.head?_trimStart_of_trimInline head (by decide)) (by decide)
  ends text stops := by
    have noName := stops.mono fun _ => startsDeclaration_of_startsName
    exact mismatches_orElse_iff.mpr
      ⟨mismatches_comment (stops.head_ne (by decide)) (stops.head_ne (by decide)),
        (mismatches_propertyName noName).bind _⟩

/-- An object type is read back where its members are. -/
theorem object_reads {members : List Node} (inside : ∀ member ∈ members, IsMember member)
    (reads : ∀ member ∈ members, ItemReads memberRule layout.nested member) :
    TypeReads layout (.objectType members) := by
  intro rest _
  obtain ⟨inside, left, shape, allSpace, taken⟩ :=
    (memberSequence_reads inside reads).body (')' :: rest)
  have brackets : "object(".toList = "object".toList ++ ['('] := by decide
  have no {name : Text} {c : Char} (first : name.head? = some c) (apart : 'o' ≠ c) :=
    @not_prefix_of_head ("object".toList ++ '(' :: '{' :: inside) name c 'o' first rfl apart
  rw [valueForm_objectType, brackets, typeConstraint_eq, typeConstraintOver]
  simp only [List.append_assoc, List.cons_append, List.nil_append]
  rw [shape, orElse_of_mismatches (mismatches_collectionType (no rfl (by decide)))]
  refine orElse_of_matched ?_ _
  exact bind_matched_iff.mpr ⟨(), '{' :: inside,
    typeWord_append _ ((Text.stops_cons ..).mpr (by decide)),
    bind_matched_iff.mpr ⟨_, _, char_cons '{' inside, bind_matched_iff.mpr ⟨members, _, taken,
      closing_parenthesis allSpace (by decide) rest⟩⟩⟩

/-! ### All type constraints -/

section Everywhere

variable {compact : Bool}

mutual

/-- A type constraint is read back before any text that does not go on with its name. -/
theorem type_reads : ∀ {node : Node}, IsType node → ∀ {layout : Layout}, layout.isCompact = compact →
    node.Everywhere (Faithful compact) → TypeReads layout node
  | _, .primitive listed, _, _, _ => primitive_reads listed _
  | _, .collection inside, _, same, faithful =>
    collection_reads inside (type_reads inside same (faithful.of_mem_inside List.mem_cons_self))
  | _, .object inside, layout, same, faithful =>
    object_reads inside fun member mem => member_itemReads (inside member mem)
      ((Layout.isCompact_nested layout).trans same) (faithful.of_mem_inside mem)
  | _, .tuple inside, _, same, faithful =>
    tuple_reads inside fun element mem =>
      type_reads (inside element mem) same (faithful.of_mem_inside mem)

/-- A member of an object type is read back. -/
theorem member_itemReads : ∀ {node : Node}, IsMember node → ∀ {layout : Layout},
    layout.isCompact = compact → node.Everywhere (Faithful compact) →
    ItemReads memberRule layout node
  | _, .comment comment, _, same, faithful => memberComment_reads comment (same ▸ faithful.here)
  | _, .typed isName isType, _, same, faithful =>
    member_reads isName faithful.here.1 isType
      (type_reads isType same (faithful.of_mem_inside List.mem_cons_self))

end

end Everywhere

end HclSyntax.Grammar
