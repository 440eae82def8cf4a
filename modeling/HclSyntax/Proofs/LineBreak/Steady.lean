import HclSyntax.Proofs.Grammar.Consumption
import HclSyntax.Proofs.Grammar.ForLoop
import HclSyntax.Proofs.Grammar.Operator
import HclSyntax.Proofs.Grammar.Repetition
import HclSyntax.Proofs.Grammar.Tentative
import HclSyntax.Proofs.Rule.LineBreak

/-!
# `HclSyntax.Proofs.LineBreak.Steady`: rules to which a line feed makes no difference

Most rules of the grammar find the same in a text and in the text with a line feed behind it: their
characters and words have no line feed, and what looks at the end of the text (`endOfValue`,
`closing`, the rules for brackets, quotes and comments) takes it for white space or is a fault
already. Each of them gets an instance of `Rule.Steady`.

Only two rules stay out, heredocs and for expressions. They ask for white space that may be missing
at the end of the text and commit right behind it (`HclSyntax.Proofs.LineBreak.Late`).
-/

set_option autoImplicit false

set_option synthInstance.maxSize 100000

namespace HclSyntax.Grammar

open Rule

variable {bound : Nat}

/-! ### Numbers and booleans -/

instance : Lacks '\n' isNameChar := ⟨by decide⟩

instance : Lacks '\n' isTextChar := ⟨by decide⟩

instance {rule : Rule Text} [Descends rule] [Steady bound rule] :
    Steady bound (optionalText rule) :=
  inferInstanceAs (Steady bound (optional rule >>= fun _ => _))

instance : Steady bound exponent := by
  unfold exponent
  infer_instance

instance : Steady bound fraction := by
  unfold fraction
  infer_instance

instance : Steady bound decimal := by
  unfold decimal
  infer_instance

instance : Steady bound hexadecimal := by
  have (bound : Nat) : Steady bound (word "0x".toList) := steady_word (by decide)
  unfold hexadecimal
  infer_instance

instance : Steady bound number := by
  unfold number
  infer_instance

/-- A line feed makes no difference to a word without one, whatever its case. -/
theorem steady_wordAnyCase {expected : Text} (h : '\n' ∉ expected) :
    Steady bound (wordAnyCase expected) := by
  refine steady_of_answers (fun taken => ?_) fun taken => ?_
  · obtain ⟨rfl, same⟩ := wordAnyCase_matched_iff.mp taken
    exact wordAnyCase_matched_iff.mpr ⟨by simp, same⟩
  · obtain ⟨split, lower⟩ := wordAnyCase_matched_iff.mp taken
    rcases Text.feed_split split with ⟨feed, -⟩ | ⟨more, -, rfl⟩
    · -- No letter is lowered from a line feed.
      exact absurd (lower ▸ List.mem_map_of_mem feed) h
    · exact not_mismatches_of_matched (wordAnyCase_matched_iff.mpr ⟨rfl, lower⟩)

instance : Steady bound boolean := by
  have (bound : Nat) : Steady bound (wordAnyCase "true".toList) := steady_wordAnyCase (by decide)
  have (bound : Nat) : Steady bound (wordAnyCase "false".toList) := steady_wordAnyCase (by decide)
  unfold boolean
  infer_instance

instance : Steady bound numberOrBool := by
  unfold numberOrBool
  infer_instance

/-! ### Quoted strings and comments -/

instance : Steady bound quotedString := by
  refine steady_of_feed fun text => ?_
  cases text with
  | nil => exact .mismatch
  | cons c rest =>
    by_cases opens : c = '"'
    · cases closes : Text.close [.quote] rest with
      | none =>
        simp only [quotedString, opens, if_true, closes]
        exact .committed
      | some parts =>
        obtain ⟨span, after⟩ := parts
        -- The span closes the string before any other text.
        have again := Text.close_span_append closes (after ++ ['\n'])
        rw [← List.append_assoc, Text.close_append closes] at again
        simp only [quotedString, List.cons_append, opens, if_true, closes, again]
        exact .matched (.feed after)
    · simp only [quotedString, List.cons_append, opens, if_false]
      exact .mismatch

instance : Steady bound scalar := by
  unfold scalar
  infer_instance

instance : Steady bound commentStyle := by
  have (bound : Nat) : Steady bound (word CommentStyle.hash.marker) := steady_word (by decide)
  have (bound : Nat) : Steady bound (word CommentStyle.doubleSlash.marker) :=
    steady_word (by decide)
  unfold commentStyle
  infer_instance

instance : Steady bound lineComment := by
  unfold lineComment
  infer_instance

/-- A word is found at the same place of a text with a line feed behind it. -/
theorem splitAtWord_feed {text expected before after : Text}
    (h : text.splitAtWord expected = some (before, after)) (noFeed : '\n' ∉ expected) :
    (text ++ ['\n']).splitAtWord expected = some (before, after ++ ['\n']) := by
  induction text generalizing before with
  | nil =>
    unfold Text.splitAtWord at h
    split at h
    · next found =>
      cases h
      -- The word can be found in the empty text only if it is empty itself.
      have again := Text.isPrefixOf?_feed noFeed []
      rw [found] at again
      rw [Text.splitAtWord.eq_def, again]
      rfl
    · cases h
  | cons c rest ih =>
    have same := Text.isPrefixOf?_feed noFeed (c :: rest)
    unfold Text.splitAtWord at h
    rw [Text.splitAtWord.eq_def, same]
    split at h
    · next found =>
      cases h
      rw [found]
      rfl
    · next notHere =>
      obtain ⟨⟨front, tail⟩, found, same⟩ := Option.map_eq_some_iff.mp h
      cases same
      rw [notHere]
      simp [ih found]

instance : Steady bound commentBody := by
  refine steady_of_feed fun text => ?_
  unfold commentBody
  cases closes : text.splitAtWord "*/".toList with
  | none => exact .committed
  | some parts =>
    rw [splitAtWord_feed closes (by decide)]
    exact .matched (.feed _)

instance : Steady bound bracketedComment := by
  have (bound : Nat) : Steady bound (word "/*".toList) := steady_word (by decide)
  rw [bracketedComment_eq]
  infer_instance

instance : Steady bound comment :=
  inferInstanceAs (Steady bound (lineComment <|> bracketedComment))

/-! ### Names and symbols -/

instance : Steady bound identifier := by
  unfold identifier
  infer_instance

instance : Steady bound propertyName := by
  unfold propertyName
  infer_instance

instance : Steady bound label :=
  inferInstanceAs (Steady bound (quotedString <|> identifier))

instance : Steady bound equals := by
  unfold equals
  infer_instance

instance : Steady bound functionNamePart := by
  unfold functionNamePart
  infer_instance

instance : Steady bound functionName := by
  have (bound : Nat) : Steady bound (word "::".toList) := steady_word (by decide)
  have : Consumes (word "::".toList) := consumes_word (by decide)
  unfold functionName
  infer_instance

instance : Steady bound callStart := by
  unfold callStart
  infer_instance

/-- Nor does it to a choice of such words. -/
theorem steady_anyWord {words : List Text} (h : ∀ word ∈ words, '\n' ∉ word) :
    Steady bound (anyWord words) := by
  induction words with
  | nil => exact inferInstanceAs (Steady bound fail)
  | cons expected others ih =>
    have : Steady bound (word expected) := steady_word (h expected List.mem_cons_self)
    have := ih fun word mem => h word (List.mem_cons_of_mem _ mem)
    exact inferInstanceAs (Steady bound (word expected <|> anyWord others))

instance : Steady bound operator := by
  have (bound : Nat) : Steady bound (anyWord [">=".toList, "<=".toList, "!=".toList, "==".toList,
      "&&".toList, "||".toList]) := steady_anyWord (by decide)
  unfold operator
  infer_instance

/-- Behind the keyword of a dynamic block stands a name, so it is no keyword at the end of the
text. -/
instance : Steady bound blockName := by
  have (bound : Nat) : Steady bound (keyword "dynamic".toList >>= fun _ => whitespace >>= fun _ =>
      propertyName >>= fun name => pure (true, name)) :=
    steady_keyword (by decide) fun _ => ⟨[], rfl⟩
  unfold blockName
  infer_instance

/-- A value ends where the text does, and where its line does. -/
instance : Steady bound endOfValue := by
  refine steady_of_feed fun text => ?_
  have inline : Text.trimInline (text ++ ['\n']) = Text.trimInline text ++ ['\n'] :=
    Text.dropWhile_feed (by decide) text
  rw [endOfValue, followedBy, followedBy, bind_of_matched (inlineWhitespace_apply _),
    bind_of_matched (inlineWhitespace_apply _), inline]
  cases Text.trimInline text with
  | nil => exact .matched (.feed text)
  | cons c rest =>
    -- Where something is left on the line, its first characters decide.
    have look {expected : Text} (h : '\n' ∉ expected) :
        expected.isPrefixOf? (c :: (rest ++ ['\n']))
          = (expected.isPrefixOf? (c :: rest)).map (· ++ ['\n']) :=
      Text.isPrefixOf?_feed h (c :: rest)
    have slashes : '\n' ∉ "//".toList := by decide
    have opens : '\n' ∉ "/*".toList := by decide
    simp only [orElse_apply, bind_apply, endOfText, oneOf, charWhere, word, look slashes,
      look opens, List.cons_append, List.isEmpty_cons, Bool.false_eq_true, if_false]
    cases List.contains _ c <;> cases List.isPrefixOf? "//".toList _
      <;> cases List.isPrefixOf? "/*".toList _
      <;> first | exact .matched (.feed text) | exact .mismatch

/-! ### Brackets -/

instance : Steady bound balancedToBracket := by
  refine steady_of_answers (fun taken => ?_) fun taken => ?_
  · obtain ⟨rfl, passes, c, tail, rfl, stops⟩ := balancedToBracket_matched_iff.mp taken
    refine balancedToBracket_matched_iff.mpr ⟨by simp, passes_any passes _, c, tail ++ ['\n'], rfl, ?_⟩
    simpa using stops
  · obtain ⟨split, passes, c, tail, rfl, stops⟩ := balancedToBracket_matched_iff.mp taken
    have closes : isClosingBracket c = true := isClosingBracket_iff_mem.mpr (by simpa using stops)
    rcases Text.feed_split split with ⟨-, nothing⟩ | ⟨more, same, rfl⟩
    · cases nothing
    · -- The bracket is not the line feed, so it is there without it.
      cases more with
      | nil =>
        obtain rfl := (List.cons.inj same).1
        cases closes
      | cons d more =>
        obtain rfl := (List.cons.inj same).1
        exact not_mismatches_of_matched (balancedToBracket_matched_iff.mpr
          ⟨rfl, passes_any passes _, stopsAt_cons_iff.mpr (.inr closes)⟩)

instance : Steady bound listIndex := by
  unfold listIndex
  infer_instance

instance : Steady bound unquotedText := by
  unfold unquotedText
  infer_instance

instance : Steady bound accessor := by
  unfold accessor
  infer_instance

/-! ### Parts of for expressions -/

/-- A test for the end of a part that a line feed at the end of the text makes no difference to. -/
structure FeedFree (stop : Text → Bool) : Prop where
  stops {after : Text} (nonempty : after ≠ []) (h : stop after = true) :
    stop (after ++ ['\n']) = true
  goesOn {back after : Text} (nonempty : back ≠ []) (stands : StopsAt stop after)
    (h : stop (back ++ after) = false) : stop (back ++ (after ++ ['\n'])) = false

/-- The end of the part is where it was, and a part without one is a fault. -/
theorem steady_loopPart {stop : Text → Bool} (h : FeedFree stop) : Steady bound (loopPart stop) := by
  refine steady_of_feed fun text => ?_
  unfold loopPart
  cases split : balancedSplit stop 0 text with
  | none => exact .committed
  | some parts =>
    obtain ⟨inside, after⟩ := parts
    obtain ⟨rfl, passes, stands⟩ := balancedSplit_iff.mp split
    -- The scan stops in the same place, as the line feed makes no stop of another one.
    have again : balancedSplit stop 0 (inside ++ after ++ ['\n'])
        = some (inside, after ++ ['\n']) := by
      refine balancedSplit_iff.mpr ⟨by simp, passes.mono fun back _ nonempty =>
        h.goesOn nonempty stands, ?_⟩
      obtain ⟨c, tail, rfl, stands⟩ := stands
      exact ⟨c, tail ++ ['\n'], rfl, stands.imp_left (h.stops (List.cons_ne_nil c tail))⟩
    rw [again]
    exact .matched (.feed after)

/-- The collection ends at a character. -/
theorem feedFree_head (c : Char) : FeedFree fun rest => rest.head? == some c where
  stops {after} nonempty h := by
    obtain ⟨d, tail, rfl⟩ := List.exists_cons_of_ne_nil nonempty
    exact h
  goesOn {back after} nonempty _ h := by
    obtain ⟨d, tail, rfl⟩ := List.exists_cons_of_ne_nil nonempty
    exact h

/-- Statements do not end in white space and the word `if` at the end of the text. -/
theorem not_stopsAt_word {front after space : Text} (h : Text.AllSpace space)
    (same : front ++ after = space ++ ['i', 'f']) : ¬ StopsAt startsCondition after := by
  rintro ⟨c, tail, rfl, stands⟩
  rw [← isClosingBracket_iff_mem] at stands
  rcases stands with starts | closes
  · obtain ⟨⟨d, more, first, isSpace⟩, e, rest, word, -⟩ := startsCondition_iff.mp starts
    obtain ⟨rfl, -⟩ := List.cons.inj first
    -- The place is in the white space, with too little behind it, or in the word.
    rcases List.append_eq_append_iff.mp same with ⟨middle, rfl, split⟩ | ⟨middle, -, split⟩
    · have inside : Text.AllSpace middle := fun e he => h e (List.mem_append_right _ he)
      have notSpace : isWhitespace 'i' = false := by decide
      rw [split, Text.trimStart_append inside, Text.trimStart_cons notSpace] at word
      cases word
    · have listed : c ∈ ['i', 'f'] := split ▸ by simp
      have notSpace : ∀ d ∈ ['i', 'f'], isWhitespace d = false := by decide
      simp [notSpace c listed] at isSpace
  · have listed : c ∈ space ++ ['i', 'f'] := same ▸ by simp
    have notSpace := isWhitespace_bracket (.inl closes)
    simp only [List.mem_append, List.mem_cons, List.not_mem_nil, or_false] at listed
    rcases listed with inside | rfl | rfl
    · simp [h c inside] at notSpace
    all_goals cases closes

/-- Behind the statements a condition starts where it did. Only the word `if` at the very end of the
text would start one behind the line feed, and there is no closing bracket behind it. -/
theorem feedFree_startsCondition : FeedFree startsCondition where
  stops {after} _ h := by
    obtain ⟨⟨c, tail, rfl, isSpace⟩, d, more, starts, follows⟩ := startsCondition_iff.mp h
    refine startsCondition_iff.mpr ⟨⟨c, tail ++ ['\n'], rfl, isSpace⟩, d, more ++ ['\n'], ?_, follows⟩
    rw [Text.trimStart_append_of_ne_nil (by simp [starts]), starts]
    rfl
  goesOn {back after} nonempty stands none := by
    rw [← Bool.not_eq_true] at none ⊢
    refine fun starts => none ?_
    rw [← List.append_assoc, startsCondition_iff] at starts
    obtain ⟨⟨c, tail, first, isSpace⟩, d, more, word, follows⟩ := starts
    obtain ⟨b, bs, rfl⟩ := List.exists_cons_of_ne_nil nonempty
    obtain ⟨rfl, -⟩ := List.cons.inj first
    refine startsCondition_iff.mpr ⟨⟨b, bs ++ after, rfl, isSpace⟩, ?_⟩
    by_cases visible : Text.trimStart (b :: bs ++ after) = []
    · have blank := (Text.Broken.feed (b :: bs ++ after)).trimStart
      rw [visible, word] at blank
      rcases blank.nil with same | same <;> cases same
    rw [Text.trimStart_append_of_ne_nil visible] at word
    rcases Text.feed_split (show _ = ['i', 'f', d] ++ more from word) with ⟨feed, rfl⟩ |
      ⟨more, rfl, front⟩
    · -- The word is the last of the text, and the statements do not end in it.
      obtain rfl : '\n' = d := by simpa using feed
      obtain ⟨space, allSpace, split⟩ := Text.trimStart_split (b :: bs ++ after)
      have last : Text.trimStart (b :: bs ++ after) = ['i', 'f'] :=
        List.append_cancel_right (show _ ++ ['\n'] = ['i', 'f'] ++ ['\n'] from word)
      rw [last] at split
      exact absurd stands (not_stopsAt_word allSpace split)
    · exact ⟨d, more, front, follows⟩

/-- A closing bracket that is missing at the end of the text is a fault with or without a line feed. -/
instance (bracket : Char) (construct : Construct) : Steady bound (closing bracket construct) := by
  refine ⟨⟨fun {text broken} _ hbroken => ?_⟩⟩
  have spaces := hbroken.trimStart
  cases start : text.trimStart with
  | nil =>
    rw [closing_apply, start]
    exact .committed
  | cons c rest =>
    rw [start] at spaces
    obtain ⟨more, same, hrest⟩ := spaces.cons
    rw [closing_of_cons start, closing_of_cons same]
    by_cases h : c = bracket
    · subst h
      rw [bind_of_matched (char_cons c rest), bind_of_matched (char_cons c more)]
      exact .matched hrest
    · simpa [bind_apply, char, charWhere, h] using .mismatch

instance : Steady bound loopBindings := by
  rw [loopBindings_eq]
  infer_instance

instance : Steady bound loopCondition := by
  have (bound : Nat) : Steady bound (word "if".toList) := steady_word (by decide)
  unfold loopCondition
  infer_instance

/-! ### Type constraints -/

instance : Steady bound primitiveName := by
  have (bound : Nat) : Steady bound (word "string".toList) := steady_word (by decide)
  have (bound : Nat) : Steady bound (word "number".toList) := steady_word (by decide)
  have (bound : Nat) : Steady bound (word "bool".toList) := steady_word (by decide)
  have (bound : Nat) : Steady bound (word "any".toList) := steady_word (by decide)
  unfold primitiveName
  infer_instance

instance : Steady bound primitiveType := by
  unfold primitiveType
  infer_instance

/-- Nor does it to the name of a type. -/
theorem steady_typeWord {name : Text} (h : '\n' ∉ name) : Steady bound (typeWord name) := by
  have (bound : Nat) : Steady bound (word name) := steady_word h
  unfold typeWord
  infer_instance

section TypeConstraint
variable {rule : Rule Node} [Descends rule] [Consumes rule] [Steady bound rule]

instance (collection : CollectionType) :
    Steady (bound + 1) (collectionType rule collection) := by
  have : Steady (bound + 1) (typeWord collection.word) :=
    steady_typeWord (by cases collection <;> decide)
  exact Steady.taken typeWord_shortens

instance : Steady (bound + 1) (objectType rule) := by
  have : Steady (bound + 1) (typeWord "object".toList) := steady_typeWord (by decide)
  unfold objectType typeMember
  exact Steady.taken typeWord_shortens

instance : Steady (bound + 1) (tupleType rule) := by
  have : Steady (bound + 1) (typeWord "tuple".toList) := steady_typeWord (by decide)
  exact Steady.taken typeWord_shortens

instance : Steady (bound + 1) (typeConstraintOver rule) := by
  unfold typeConstraintOver
  infer_instance

end TypeConstraint

instance : Steady bound typeConstraint where
  wavers := by
    induction bound with
    | zero => exact ⟨fun short => absurd short (Nat.not_lt_zero _)⟩
    | succ bound ih =>
      have : Steady bound typeConstraint := ⟨ih⟩
      refine ⟨fun short h => ?_⟩
      rw [typeConstraint_eq, typeConstraint_eq]
      exact Rule.follows_of_steady (typeConstraintOver typeConstraint) short h

instance (kind : PropertyKind) {rule : Rule Node} [Descends rule] [Steady bound rule] :
    Steady bound (assigned kind rule) := by
  unfold assigned
  infer_instance

end HclSyntax.Grammar
