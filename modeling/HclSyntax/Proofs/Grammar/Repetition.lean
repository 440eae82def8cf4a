import HclSyntax.Proofs.Grammar.Consumption

/-!
# `HclSyntax.Proofs.Grammar.Repetition`: what the grammar repeats

Names of calls, unquoted text, accessors, elements, the parts of type constraints, expressions and
declarations are read item by item, for as long as another item matches. `Grammar.repetitions` lists
the rules that do so, each with its item, and `not_meetsIdle_of_mem` says that none of them ever
meets an item that matches and takes nothing.
-/

set_option autoImplicit false

set_option synthInstance.maxSize 100000

namespace HclSyntax.Grammar

open Rule

/-! ### The items -/

/-- An element of a list or an argument, with the comma behind it. -/
def elementItem (inner : Inner) : Rule Node := do
  whitespace
  let element ← comment <|> inner.value
  let _ ← optional do
    whitespace
    char ','
  return element

/-- Elements are read one after the other up to the closing bracket. -/
theorem elements_eq_many (inner : Inner) (bracket : Char) (construct : Construct) :
    elements inner bracket construct
      = many (elementItem inner) >>= fun found => closing bracket construct >>= fun _ =>
          pure found := rfl

/-- A member of an object type or a comment there, with the comma behind it. -/
def memberItem (inner : Rule Node) : Rule Node := do
  whitespace
  let member ← comment <|> typeMember inner
  let _ ← optional do
    inlineWhitespace
    char ','
  return member

/-- A constraint in a tuple type, with the comma behind it. -/
def tupleItem (inner : Rule Node) : Rule Node := do
  whitespace
  let element ← inner
  let _ ← optional do
    whitespace
    char ','
  return element

/-- A declaration with the white space in front of it and the separator behind it. -/
def declarationItem (inner : Inner) : Rule Node := do
  whitespace
  let found ← declaration inner
  let _ ← optional do
    whitespace
    oneOf [',', ';']
  return found

/-- Declarations are read one after the other. -/
theorem declarationsOver_eq (inner : Inner) :
    declarationsOver inner = many (declarationItem inner) := rfl

/-! ### Every item takes something -/

instance : Consumes furtherPart := by
  have : Consumes (word "::".toList) := consumes_word (by decide)
  unfold furtherPart
  infer_instance

instance : Consumes textPiece :=
  inferInstanceAs (Consumes (listIndex <|> takeWhile1 isTextChar))

instance : Consumes accessorPart := by
  unfold accessorPart
  infer_instance

instance : Consumes inner.value :=
  inferInstanceAs (Consumes value)

instance : Descends (elementItem inner) := by
  unfold elementItem
  infer_instance

instance : Consumes (elementItem inner) := by
  unfold elementItem
  infer_instance

instance {rule : Rule Node} [Descends rule] : Consumes (memberItem rule) := by
  unfold memberItem
  infer_instance

instance {rule : Rule Node} [Descends rule] [Consumes rule] : Consumes (tupleItem rule) := by
  unfold tupleItem
  infer_instance

instance : Descends (declarationItem inner) := by
  unfold declarationItem
  infer_instance

instance : Consumes (declarationItem inner) := by
  unfold declarationItem
  infer_instance

/-! ### The repetitions -/

/-- The rule is a sequence, and one of its parts is the repetition of the item. -/
inductive Repeats {α : Type} (item : Rule α) : {β : Type} → Rule β → Prop
  | many : Repeats item (many item)
  | before {β γ : Type} {rule : Rule β} (h : Repeats item rule) (next : β → Rule γ) :
    Repeats item (rule >>= next)
  | behind {β γ : Type} {first : Rule β} {next : β → Rule γ}
    (h : ∀ value, Repeats item (next value)) : Repeats item (first >>= next)

/-- A rule that repeats an item. -/
structure Repetition where
  {Item Result : Type}
  rule : Rule Result
  item : Rule Item
  repeats : Repeats item rule

/-- The elements of a bracket repeat the rule for one of them. -/
theorem repeats_elements (bracket : Char) (construct : Construct) :
    Repeats (elementItem inner) (elements inner bracket construct) :=
  .before .many _

/-- The terms of an expression repeat the rule for an operator and its term. -/
theorem repeats_expressionTerms (multiline : Bool) :
    Repeats (operation inner multiline) (expressionTerms inner multiline) :=
  .behind fun _ => .before .many _

/-- All repetitions of the grammar. -/
def repetitions : List Repetition :=
  [ ⟨functionName, furtherPart, .behind fun _ => .before .many _⟩,
    ⟨unquotedText, textPiece, .behind fun _ => .before .many _⟩,
    ⟨accessor, accessorPart, .before (.behind fun _ => .before .many _) _⟩,
    ⟨elements inner ')' .functionCall, elementItem inner, repeats_elements _ _⟩,
    ⟨elements inner ')' .parenthesized, elementItem inner, repeats_elements _ _⟩,
    ⟨elements inner ']' .list, elementItem inner, repeats_elements _ _⟩,
    ⟨objectType typeConstraint, memberItem typeConstraint,
      .behind fun _ => .behind fun _ => .before .many _⟩,
    ⟨tupleType typeConstraint, tupleItem typeConstraint,
      .behind fun _ => .behind fun _ => .before .many _⟩,
    ⟨expressionTerms inner true, operation inner true, repeats_expressionTerms _⟩,
    ⟨expressionTerms inner false, operation inner false, repeats_expressionTerms _⟩,
    ⟨declarationsOver inner, declarationItem inner, .many⟩ ]

/-- No repetition of the grammar meets an item that matches and takes nothing. -/
theorem not_meetsIdle_of_mem {repetition : Repetition} (h : repetition ∈ repetitions) (text : Text) :
    ¬ repetition.item.MeetsIdle text := by
  have consumes : ∀ repetition ∈ repetitions, Consumes repetition.item := by
    simp only [repetitions, List.forall_mem_cons]
    refine ⟨?_, ?_, ?_, ?_, ?_, ?_, ?_, ?_, ?_, ?_, ?_, List.forall_mem_nil _⟩ <;> infer_instance
  have := consumes repetition h
  exact not_meetsIdle repetition.item text

end HclSyntax.Grammar
