import HclSyntax.Text.Basic

/-!
# `HclSyntax.Grammar.Rule`: rules of an ordered grammar

A rule of the grammar takes characters from the front of a text. It matches, with a value and the
rest of the text, or it fails, with the rest where it gave up. There are two ways to fail:

* a *mismatch* says that this rule does not apply, so another one may be tried;
* a *committed* failure says that the rule did apply and the text is faulty, so nothing else is
  tried. It carries a `Fault`, the cause.

Choice is ordered: the first alternative that does not mismatch decides. When all of them mismatch,
the place where the last one gave up is kept.

Repetition ends at the first mismatch. An element that matches without taking a character would
repeat for ever, so `many` treats it as a mismatch of the repetition itself.
-/

set_option autoImplicit false

namespace HclSyntax

/-- The parts of a template whose end can be missing. -/
inductive Construct where
  | quotedString
  | heredoc
  | comment
  | block
  | list
  | map
  | functionCall
  | parenthesized
  | forExpression
deriving DecidableEq, Repr

/-- The cause of a committed failure. -/
inductive Fault where
  /-- The text ends inside this construct. -/
  | unterminated (construct : Construct)
  /-- A block body goes on with something that is neither a declaration nor its closing brace; the
  number of bodies that are open there. -/
  | unclosedBody (bodies : Nat)
deriving DecidableEq, Repr

/-- What a rule answers on a text. -/
inductive Reply (α : Type) where
  | matched (value : α) (rest : Text)
  | mismatch (rest : Text)
  | committed (rest : Text) (fault : Fault)
deriving DecidableEq, Repr

/-- A rule of the grammar. -/
def Rule (α : Type) : Type := Text → Reply α

namespace Rule

variable {α β : Type}

/-- Matches without taking anything. -/
protected def pure (value : α) : Rule α :=
  fun text => .matched value text

/-- One rule after the other; the second may depend on what the first matched. -/
protected def bind (first : Rule α) (next : α → Rule β) : Rule β :=
  fun text =>
    match first text with
    | .matched value rest => next value rest
    | .mismatch rest => .mismatch rest
    | .committed rest fault => .committed rest fault

instance : Monad Rule where
  pure := Rule.pure
  bind := Rule.bind

/-- The second rule where the first does not apply. -/
protected def orElse (first second : Rule α) : Rule α :=
  fun text =>
    match first text with
    | .mismatch _ => second text
    | reply => reply

instance : OrElse (Rule α) := ⟨fun first second => first.orElse (second ())⟩

/-- The rule that never applies. -/
def fail : Rule α :=
  fun text => .mismatch text

/-- Fails for good because the text ends inside a construct. -/
def unterminated (construct : Construct) : Rule α :=
  fun text => .committed text (.unterminated construct)

/-- The text that is still to be read. -/
def remaining : Rule Text :=
  fun text => .matched text text

/-- A rule that may be left out. -/
def optional (rule : Rule α) : Rule (Option α) :=
  fun text =>
    match rule text with
    | .matched value rest => .matched (some value) rest
    | .mismatch _ => .matched none text
    | .committed rest fault => .committed rest fault

/-- Applies where the rule does, without taking anything. -/
def followedBy (rule : Rule α) : Rule Unit :=
  fun text =>
    match rule text with
    | .matched _ _ => .matched () text
    | .mismatch _ => .mismatch text
    | .committed _ fault => .committed text fault

/-- Applies where the rule does not, without taking anything. -/
def notFollowedBy (rule : Rule α) : Rule Unit :=
  fun text =>
    match rule text with
    | .matched _ _ => .mismatch text
    | .mismatch _ => .matched () text
    | .committed _ fault => .committed text fault

/-- Applies where the rule does with a value that is accepted. Where it is not, nothing is taken. -/
def suchThat (rule : Rule α) (accepts : α → Bool) : Rule α :=
  fun text =>
    match rule text with
    | .matched value rest => if accepts value then .matched value rest else .mismatch text
    | reply => reply

/-- One character of a class. -/
def charWhere (accepts : Char → Bool) : Rule Char :=
  fun text =>
    match text with
    | c :: rest => if accepts c then .matched c rest else .mismatch text
    | [] => .mismatch text

/-- This character. -/
def char (c : Char) : Rule Char :=
  charWhere (· == c)

/-- One of these characters. -/
def oneOf (choices : Text) : Rule Char :=
  charWhere choices.contains

/-- This word. -/
def word (expected : Text) : Rule Text :=
  fun text =>
    match expected.isPrefixOf? text with
    | some rest => .matched expected rest
    | none => .mismatch text

/-- All characters of a class up to the first other one. -/
def takeWhile (accepts : Char → Bool) : Rule Text :=
  fun text => .matched (text.takeWhile accepts) (text.dropWhile accepts)

/-- All characters of a class up to the first other one, at least one. -/
def takeWhile1 (accepts : Char → Bool) : Rule Text :=
  fun text =>
    if (text.takeWhile accepts).isEmpty then .mismatch text
    else .matched (text.takeWhile accepts) (text.dropWhile accepts)

/-- A rule as often as it applies. -/
def many (rule : Rule α) : Rule (List α) :=
  fun text =>
    match rule text with
    | .mismatch _ => .matched [] text
    | .committed rest fault => .committed rest fault
    | .matched value rest =>
      if rest.length < text.length then
        match many rule rest with
        | .matched values after => .matched (value :: values) after
        | .mismatch after => .mismatch after
        | .committed after fault => .committed after fault
      else .mismatch rest
termination_by text => text.length

/-- A rule as often as it applies, at least once. -/
def many1 (rule : Rule α) : Rule (List α) := do
  let first ← rule
  let others ← many rule
  return first :: others

/-- A rule whose mismatches are faults: the body of a block, after its opening brace. The faults
inside bodies within it gain one open body. -/
def body (rule : Rule α) : Rule α :=
  fun text =>
    match rule text with
    | .matched value rest => .matched value rest
    | .mismatch rest => .committed rest (.unclosedBody 1)
    | .committed rest (.unclosedBody bodies) => .committed rest (.unclosedBody (bodies + 1))
    | .committed rest fault => .committed rest fault

/-- Skips white space, line breaks included. -/
def whitespace : Rule Unit :=
  fun text => .matched () (text.dropWhile isWhitespace)

/-- Skips white space up to the end of the line. -/
def inlineWhitespace : Rule Unit :=
  fun text => .matched () (text.dropWhile fun c => isWhitespace c && c != '\n')

/-- Matches at the end of the text. -/
def endOfText : Rule Unit :=
  fun text => if text.isEmpty then .matched () text else .mismatch text

/-- A word that white space has to follow. -/
def keyword (expected : Text) : Rule Text := do
  let found ← word expected
  followedBy (charWhere isWhitespace)
  return found

end Rule

end HclSyntax
