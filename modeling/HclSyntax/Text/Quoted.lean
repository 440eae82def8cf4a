import HclSyntax.Text.Basic

/-!
# `HclSyntax.Text.Quoted`: where quoted strings and template sequences end

A quoted string may hold template sequences (`${ ... }` and `%{ ... }`), a template sequence may
hold quoted strings, and so on to any depth. `Text.close` reads a text with the list of delimiters
that are open, innermost first, and stops right after the last one is closed. `quotedSpan` and
`templateSpan` start it at a string and at a sequence.

* Inside a string a backslash takes the next character with it, and so does a doubled mark (`$$`,
  `%%`), which stops a sequence from starting.
* Inside a sequence braces nest, and only quotes and braces count.

`close_append` says that the span and the rest are the text that was read.
-/

set_option autoImplicit false

namespace HclSyntax

/-- The characters that start a template sequence when an opening brace follows. -/
def isTemplateMark (c : Char) : Bool :=
  c == '$' || c == '%'

/-- A delimiter that waits for its end. -/
inductive Opening where
  /-- A quoted string, closed by a double quote. -/
  | quote
  /-- A template sequence with this many braces open inside it. -/
  | template (braces : Nat)
deriving DecidableEq, Repr

namespace Text

/-- The delimiters that are open after one more character of a template sequence. -/
def afterTemplateChar (c : Char) (braces : Nat) (outer : List Opening) : List Opening :=
  if c = '"' then .quote :: .template braces :: outer
  else if c = '{' then .template (braces + 1) :: outer
  else if c = '}' then
    match braces with
    | 0 => outer
    | inner + 1 => .template inner :: outer
  else .template braces :: outer

/-- The text up to the end of the outermost of the open delimiters, and what follows it; nothing
when the text ends first. -/
def close : List Opening → Text → Option (Text × Text)
  | [], text => some ([], text)
  | _ :: _, [] => none
  | .quote :: outer, c :: rest =>
    if c = '"' then (close outer rest).map fun (span, after) => (c :: span, after)
    else
      match rest with
      | [] => none
      | d :: tail =>
        if c = '\\' || (isTemplateMark c && d = c) then
          (close (.quote :: outer) tail).map fun (span, after) => (c :: d :: span, after)
        else if isTemplateMark c && d = '{' then
          (close (.template 0 :: .quote :: outer) tail).map
            fun (span, after) => (c :: d :: span, after)
        else (close (.quote :: outer) (d :: tail)).map fun (span, after) => (c :: span, after)
  | .template braces :: outer, c :: rest =>
    (close (afterTemplateChar c braces outer) rest).map fun (span, after) => (c :: span, after)

/-- The span that closes the open delimiters and what follows it make up the text. -/
theorem close_append {opened : List Opening} {text span after : Text}
    (h : close opened text = some (span, after)) : span ++ after = text := by
  fun_induction close opened text generalizing span after <;>
    simp_all only [Option.some.injEq, Prod.mk.injEq, Option.map_eq_some_iff, reduceCtorEq,
      Prod.exists]
  case case1 => obtain ⟨rfl, rfl⟩ := h; rfl
  all_goals
    rename_i ih
    obtain ⟨s, a, hs, rfl, rfl⟩ := h
    simp [ih hs]

/-- The quoted string at the start of a text, with both quotes, and what follows it. -/
def quotedSpan : Text → Option (Text × Text)
  | [] => none
  | c :: rest =>
    if c = '"' then (close [.quote] rest).map fun (span, after) => (c :: span, after) else none

/-- The template sequence at the start of a text, with its delimiters, and what follows it. -/
def templateSpan : Text → Option (Text × Text)
  | c :: d :: rest =>
    if isTemplateMark c && d = '{' then
      (close [.template 0] rest).map fun (span, after) => (c :: d :: span, after)
    else none
  | _ => none

/-- A quoted span and what follows it make up the text. -/
theorem quotedSpan_append {text span after : Text}
    (h : quotedSpan text = some (span, after)) : span ++ after = text := by
  unfold quotedSpan at h
  split at h
  · simp at h
  · split at h
    · simp only [Option.map_eq_some_iff, Prod.exists, Prod.mk.injEq] at h
      obtain ⟨s, a, hs, rfl, rfl⟩ := h
      simp [close_append hs]
    · simp at h

/-- A quoted span is not empty. -/
theorem quotedSpan_shortens {text span after : Text}
    (h : quotedSpan text = some (span, after)) : after.length < text.length := by
  have happ := quotedSpan_append h
  unfold quotedSpan at h
  split at h
  · simp at h
  · split at h
    · simp only [Option.map_eq_some_iff, Prod.exists, Prod.mk.injEq] at h
      obtain ⟨s, a, hs, rfl, rfl⟩ := h
      rw [← happ]
      simp only [List.cons_append, List.length_cons, List.length_append]
      omega
    · simp at h

end Text

end HclSyntax
