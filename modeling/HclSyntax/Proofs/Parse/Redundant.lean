import HclSyntax.Proofs.Grammar.Soundness
import HclSyntax.Proofs.LineBreak.Stranded
import HclSyntax.Proofs.RoundTrip.Property
import Mathlib

/-!
# `HclSyntax.Proofs.Parse.Redundant`: rules for properties that make no difference

Five of the rules for properties are for a value of one kind: a string, number or boolean, a list, a
map, a heredoc, a for expression in square brackets. Each of them agrees with the rule for any
expression wherever it applies (`unquotedProperty_of_dedicated`). The value that such a rule reads is
the operand that the rule for expressions reads there, no accessor and no operator follows it, and the
kind of the property is chosen by the only term.

Four of the five are tried behind the rule for any expression, and where that one does not apply they
do not either. So a grammar without them (`shortDeclarations`) reads every text as the whole grammar
does.
-/

set_option autoImplicit false

namespace HclSyntax.Grammar

open Rule Node

variable {rules : Inner} {text rest : Text} {node : Node}

/-! ### Values of one kind as operands -/

/-- Behind a character that starts no call and no group, the alternatives from for expressions on are
left. -/
theorem operand_cons {c : Char} (notLetter : isAlphabetic c = false) (notGroup : c ≠ '(') :
    operand rules (c :: text) = ((do return .forLoop (← forObject)) <|> (do return .forLoop (← forList))
      <|> list rules <|> map rules <|> (do return .heredoc (← heredoc)) <|> scalar
      <|> (do return .unquotedString (← unquotedText)) : Rule Node) (c :: text) := by
  have noCall : callStart.Mismatches (c :: text) :=
    mismatches_callStart ((Text.stops_cons ..).mpr notLetter)
  rw [operand, orElse_of_mismatches (mismatches_functionCall noCall),
    orElse_of_mismatches (mismatches_parenthesized (by simpa using notGroup))]

/-- A for expression in square brackets is an operand. -/
theorem operand_of_forList {loop : ForLoop} (found : forList text = .matched loop rest) :
    operand rules text = .matched (.forLoop loop) rest := by
  obtain ⟨_, behind, opens, -⟩ := bind_matched_iff.mp found
  obtain ⟨rfl, -⟩ := char_matched_iff.mp opens
  rw [operand_cons (by decide) (by decide), orElse_of_mismatches (mismatches_forObject (by simp))]
  exact orElse_of_matched (map_of_matched found Node.forLoop) _

/-- What is read behind a bracket only where no `for` follows is no for expression. -/
theorem mismatches_forLoop_of_matched {bracket : Char} {next : Unit → Rule Node}
    (found : (char bracket >>= fun _ => notFollowedBy forKeyword >>= next) text = .matched node rest) :
    ∃ behind, text = bracket :: behind
      ∧ ∀ closingBracket, (forLoop bracket closingBracket).Mismatches text := by
  obtain ⟨_, behind, opens, inside⟩ := bind_matched_iff.mp found
  obtain ⟨rfl, -⟩ := char_matched_iff.mp opens
  obtain ⟨_, _, noLoop, -⟩ := bind_matched_iff.mp inside
  have noFor : forKeyword.Mismatches behind := (notFollowedBy_matched_iff.mp noLoop).1
  exact ⟨behind, rfl, fun _ => Mismatches.behind (char_cons bracket behind) (noFor.bind _)⟩

/-- A list is an operand. -/
theorem operand_of_list (found : list rules text = .matched node rest) :
    operand rules text = .matched node rest := by
  obtain ⟨behind, rfl, noLoop⟩ := mismatches_forLoop_of_matched found
  have noForList : (do return .forLoop (← forList) : Rule Node).Mismatches ('[' :: behind) :=
    Mismatches.bind (noLoop ']') _
  rw [operand_cons (by decide) (by decide), orElse_of_mismatches (mismatches_forObject (by simp)),
    orElse_of_mismatches noForList]
  exact orElse_of_matched found _

/-- A map is an operand. -/
theorem operand_of_map (found : map rules text = .matched node rest) :
    operand rules text = .matched node rest := by
  obtain ⟨behind, rfl, noLoop⟩ := mismatches_forLoop_of_matched found
  have noForObject : (do return .forLoop (← forObject) : Rule Node).Mismatches ('{' :: behind) :=
    Mismatches.bind (noLoop '}') _
  rw [operand_cons (by decide) (by decide), orElse_of_mismatches noForObject,
    orElse_of_mismatches (mismatches_forList (by simp)),
    orElse_of_mismatches (mismatches_list (by simp))]
  exact orElse_of_matched found _

/-- A heredoc is an operand. -/
theorem operand_of_heredoc {doc : Heredoc} (found : heredoc text = .matched doc rest) :
    operand rules text = .matched (.heredoc doc) rest := by
  have reads := map_of_matched found Node.heredoc
  have starts : text.head? = some '<' := by
    by_contra other
    exact not_mismatches_of_matched reads (mismatches_heredoc other)
  obtain ⟨behind, rfl⟩ := List.head?_eq_some_iff.mp starts
  rw [operand_cons (by decide) (by decide), orElse_of_mismatches (mismatches_forObject (by simp)),
    orElse_of_mismatches (mismatches_forList (by simp)),
    orElse_of_mismatches (mismatches_list (by simp)),
    orElse_of_mismatches (mismatches_map (by simp))]
  exact orElse_of_matched reads _

/-- A heredoc ends its line. -/
theorem expressionTerms_heredoc {doc : Heredoc} (found : heredoc text = .matched doc rest)
    (reads : operand rules text = .matched (.heredoc doc) rest) :
    expressionTerms rules false text = .matched [.heredoc doc] rest :=
  expressionTerms_single reads nofun
    (mismatches_operator (stops_of_closesLine (closesLine_of_heredoc found)))

/-! ### Rules for a value of one kind -/

/-- The rules for properties with a value of one kind. -/
def dedicatedProperties (rules : Inner) : List (Rule Node) :=
  [scalarProperty, listProperty rules, mapProperty rules, heredocProperty, forListProperty]

/-- The rule for any expression reads a property whose value is an operand and the whole
expression. -/
theorem unquotedProperty_of_operand {name : Name} {behind value : Text}
    (named : propertyName text = .matched name behind) (assigns : equals behind = .matched () value)
    (reads : expressionTerms rules false value = .matched [node] rest) :
    unquotedProperty rules text = .matched (propertyOfTerms name [node]) rest := by
  rw [unquotedProperty, bind_of_matched named, bind_of_matched assigns, bind_of_matched reads]
  rfl

/-- A rule for values of one kind agrees with the rule for any expression if it reads operands and the
operand alone tells the kind of the property. -/
theorem unquotedProperty_of_assigned {kind : PropertyKind} {rule : Rule Node}
    (isOperand : ∀ {value node}, rule value = .matched node rest → EndsValue rest.trimInline →
      operand rules value = .matched node rest)
    (tellsKind : ∀ {value node}, rule value = .matched node rest →
      ∀ name, propertyOfTerms name [node] = .property kind name node)
    (h : assigned kind rule text = .matched node rest) :
    unquotedProperty rules text = .matched node rest := by
  obtain ⟨name, behind, named, h⟩ := bind_matched_iff.mp h
  obtain ⟨_, value, assigns, h⟩ := bind_matched_iff.mp h
  obtain ⟨found, tail, reads, h⟩ := bind_matched_iff.mp h
  obtain ⟨_, after, atEnd, same⟩ := bind_matched_iff.mp h
  obtain ⟨rfl, rfl⟩ := pure_matched_iff.mp same
  obtain ⟨-, rfl⟩ := followedBy_matched_iff.mp atEnd
  -- The rule looks for the end of the value, so neither an accessor nor an operator follows.
  have ends : EndsValue tail.trimInline := by
    by_contra other
    exact not_mismatches_of_matched atEnd (mismatches_endOfValue_iff.mpr other)
  rw [unquotedProperty_of_operand named assigns
    (expressionTerms_of_endsValue (isOperand reads ends) ends), tellsKind reads]

/-- A property that is a string, number or boolean is read as one with any expression. -/
theorem unquotedProperty_of_scalar (h : scalarProperty text = .matched node rest) :
    unquotedProperty rules text = .matched node rest := by
  refine unquotedProperty_of_assigned operand_of_scalar (fun found name => ?_) h
  rcases isScalar_of_matched found with ⟨content, rfl⟩ | ⟨literal, rfl⟩ <;> rfl

/-- So is one that is a list. -/
theorem unquotedProperty_of_list (h : listProperty rules text = .matched node rest) :
    unquotedProperty rules text = .matched node rest := by
  refine unquotedProperty_of_assigned (fun found _ => operand_of_list found) (fun found name => ?_) h
  obtain ⟨_, _, -, found⟩ := bind_matched_iff.mp found
  obtain ⟨_, _, -, found⟩ := bind_matched_iff.mp found
  obtain ⟨elements, _, -, same⟩ := bind_matched_iff.mp found
  obtain ⟨rfl, -⟩ := pure_matched_iff.mp same
  rfl

/-- So is one that is a map. -/
theorem unquotedProperty_of_map (h : mapProperty rules text = .matched node rest) :
    unquotedProperty rules text = .matched node rest := by
  refine unquotedProperty_of_assigned (fun found _ => operand_of_map found) (fun found name => ?_) h
  obtain ⟨_, _, -, found⟩ := bind_matched_iff.mp found
  obtain ⟨_, _, -, found⟩ := bind_matched_iff.mp found
  obtain ⟨entries, _, -, found⟩ := bind_matched_iff.mp found
  obtain ⟨_, _, -, same⟩ := bind_matched_iff.mp found
  obtain ⟨rfl, -⟩ := pure_matched_iff.mp same
  rfl

/-- So is one that is a heredoc. -/
theorem unquotedProperty_of_heredoc (h : heredocProperty text = .matched node rest) :
    unquotedProperty rules text = .matched node rest := by
  obtain ⟨name, behind, named, h⟩ := bind_matched_iff.mp h
  obtain ⟨_, value, assigns, h⟩ := bind_matched_iff.mp h
  obtain ⟨doc, tail, found, same⟩ := bind_matched_iff.mp h
  obtain ⟨rfl, rfl⟩ := pure_matched_iff.mp same
  exact unquotedProperty_of_operand named assigns
    (expressionTerms_heredoc found (operand_of_heredoc found))

/-- So is one that is a for expression in square brackets. -/
theorem unquotedProperty_of_forList (h : forListProperty text = .matched node rest) :
    unquotedProperty rules text = .matched node rest := by
  have isLoop {value : Text} {node : Node}
      (found : (do return .forLoop (← forList) : Rule Node) value = .matched node rest) :
      ∃ loop, forList value = .matched loop rest ∧ node = .forLoop loop := by
    obtain ⟨loop, _, reads, same⟩ := bind_matched_iff.mp found
    obtain ⟨rfl, rfl⟩ := pure_matched_iff.mp same
    exact ⟨loop, reads, rfl⟩
  refine unquotedProperty_of_assigned (fun found _ => ?_) (fun found name => ?_) h
  · obtain ⟨loop, reads, rfl⟩ := isLoop found
    exact operand_of_forList reads
  · obtain ⟨loop, -, rfl⟩ := isLoop found
    rfl

/-- Wherever a rule for values of one kind applies, the rule for any expression reads the same. -/
theorem unquotedProperty_of_dedicated {rule : Rule Node} (listed : rule ∈ dedicatedProperties rules)
    (h : rule text = .matched node rest) : unquotedProperty rules text = .matched node rest := by
  simp only [dedicatedProperties, List.mem_cons, List.not_mem_nil, or_false] at listed
  rcases listed with rfl | rfl | rfl | rfl | rfl
  · exact unquotedProperty_of_scalar h
  · exact unquotedProperty_of_list h
  · exact unquotedProperty_of_map h
  · exact unquotedProperty_of_heredoc h
  · exact unquotedProperty_of_forList h

/-! ### The grammar without them -/

/-- A declaration, read without the rules for lists, maps, heredocs and for expressions in square
brackets. -/
def shortDeclaration (rules : Inner) : Rule Node :=
  namedBlock rules
    <|> typedProperty
    <|> functionProperty rules
    <|> forObjectProperty rules
    <|> functionDeclaration rules
    <|> labelledBlock rules
    <|> typedBlock rules
    <|> scalarProperty
    <|> unquotedProperty rules
    <|> comment

/-- Declarations of the shorter grammar, over the rules for what stands inside their brackets. -/
def shortDeclarationsOver (rules : Inner) : Rule (List Node) :=
  many do
    whitespace
    let found ← shortDeclaration rules
    let _ ← optional do
      whitespace
      oneOf [',', ';']
    return found

mutual

/-- A single value of the shorter grammar. -/
def shortValue : Rule Node :=
  fun text =>
    valueOver
      { value := fun rest => if rest.length < text.length then shortValue rest else .mismatch rest
        declarations := fun rest =>
          if rest.length < text.length then shortDeclarations rest else .mismatch rest }
      text
termination_by text => text.length

/-- A sequence of declarations of the shorter grammar. -/
def shortDeclarations : Rule (List Node) :=
  fun text =>
    shortDeclarationsOver
      { value := fun rest => if rest.length < text.length then shortValue rest else .mismatch rest
        declarations := fun rest =>
          if rest.length < text.length then shortDeclarations rest else .mismatch rest }
      text
termination_by text => text.length

end

section Open

variable [Descends rules.value] [Descends rules.declarations]

/-- A declaration is the same without the four rules, or there is none in either way. -/
theorem alike_shortDeclaration : Alike (declaration rules) (shortDeclaration rules) :=
  (alike_behind_unquoted rules).orElse _ |>.orElse _ |>.orElse _ |>.orElse _ |>.orElse _
    |>.orElse _ |>.orElse _ |>.orElse _

/-- Without the four rules declarations are read the same. -/
theorem shortDeclarationsOver_eq : shortDeclarationsOver rules = declarationsOver rules :=
  ((alike_shortDeclaration.bind _).behind whitespace).many.symm

end Open

instance {α : Type} (bound : Nat) (rule : Rule α) [Descends rule] : Descends (guarded bound rule) where
  suffix text := by
    unfold guarded
    split
    · exact Descends.suffix text
    · exact List.suffix_refl text

/-- The shorter grammar reads every text as the whole one. -/
theorem short_eq (text : Text) :
    shortValue text = value text ∧ shortDeclarations text = declarations text := by
  induction h : text.length using Nat.strongRecOn generalizing text with
  | _ length ih =>
    -- Inside brackets both grammars see shorter texts only, where they are the same.
    have values : guarded text.length shortValue = guarded text.length value := by
      funext shorter
      unfold guarded
      split
      · next less => exact (ih _ (h ▸ less) shorter rfl).1
      · rfl
    have sequences : guarded text.length shortDeclarations = guarded text.length declarations := by
      funext shorter
      unfold guarded
      split
      · next less => exact (ih _ (h ▸ less) shorter rfl).2
      · rfl
    have inside : (⟨guarded text.length shortValue, guarded text.length shortDeclarations⟩ : Inner)
        = inner.guarded text.length := by
      rw [values, sequences]
      rfl
    have : Descends (inner.guarded text.length).value :=
      inferInstanceAs (Descends (guarded _ inner.value))
    have : Descends (inner.guarded text.length).declarations :=
      inferInstanceAs (Descends (guarded _ inner.declarations))
    constructor
    · calc
        shortValue text = valueOver (inner.guarded text.length) text := by
          rw [shortValue, ← inside]
          rfl
        _ = value text := (value_guarded text).symm
    · calc
        shortDeclarations text = shortDeclarationsOver (inner.guarded text.length) text := by
          rw [shortDeclarations, ← inside]
          rfl
        _ = declarations text := by rw [shortDeclarationsOver_eq, declarations_guarded]

/-- The rules for values of one kind agree with the rule for any expression, whatever the rules inside
brackets are, and without the four of them that are tried behind it every text is read as before:
the same declarations with the same rest, and the same faults. -/
theorem dedicatedProperties_redundant :
    (∀ (rules : Inner), ∀ rule ∈ dedicatedProperties rules, ∀ (text rest : Text) (node : Node),
        rule text = .matched node rest → unquotedProperty rules text = .matched node rest)
      ∧ ∀ text, shortDeclarations text = declarations text :=
  ⟨fun _ _ listed _ _ _ => unquotedProperty_of_dedicated listed, fun text => (short_eq text).2⟩

/-- A string and a for expression, each with something behind it on its line. -/
theorem dedicatedProperties_redundant_both :
    (∃ node, scalarProperty "a = true // b".toList = .matched node " // b".toList
        ∧ unquotedProperty inner "a = true // b".toList = .matched node " // b".toList)
      ∧ ∃ node, forListProperty "a = [for x in y : z];".toList = .matched node ";".toList
        ∧ unquotedProperty inner "a = [for x in y : z];".toList = .matched node ";".toList := by
  have scalar : scalarProperty "a = true // b".toList
      = .matched (.property .string (.bare "a".toList) (.numberOrBool "true".toList))
          " // b".toList := by cbv
  have loop : forListProperty "a = [for x in y : z];".toList
      = .matched (.property .unquotedExpression (.bare "a".toList)
          (.forLoop ⟨'[', ']', "x".toList, "y".toList, "z".toList, []⟩)) ";".toList := by cbv
  have agrees := dedicatedProperties_redundant.1 inner
  exact ⟨⟨_, scalar, agrees _ (by simp [dedicatedProperties]) _ _ _ scalar⟩,
    _, loop, agrees _ (by simp [dedicatedProperties]) _ _ _ loop⟩

end HclSyntax.Grammar
