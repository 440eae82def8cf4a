import Mathlib
import HclSyntax.Command.Run
import HclSyntax.Files.Tree
import HclSyntax.Proofs.Parse.LineBreak
import HclSyntax.Proofs.Text.LineEnding

/-!
# `HclSyntax.Proofs.Command.Stable`: what a passed check says about formatting

A check reads the printed form of a template as it is printed. Whoever formats a template a second
time reads more than that: the printed form with a line feed behind it, and with its line endings
normalized. The line feed makes no difference (`declarations_feed`). Line endings do, but only where
the printed form has a carriage return in it: where it has none, a template that passes the check is
formatted once and for all (`format_stable_of_check`).
-/

set_option autoImplicit false

namespace HclSyntax

/-- The templates on standard input. -/
def Inputs.standard : Inputs := ⟨false, [], []⟩

/-- Standard input is read where nothing else is given. -/
theorem Inputs.load_standard (files : Files Id) (input : Id (Except FileError Text)) (workdir : Text) :
    Inputs.standard.load files input workdir = readInput input := if_pos rfl

namespace Invocation

/-- A command on standard input, with no directory to change to. -/
def runOnInput (files : Files Id) (workdir : Text) (command : Command) (text : Text) : Outcome :=
  Id.run ((Invocation.mk [] command).run files (pure (.ok text)) workdir)

variable {files : Files Id} {workdir text : Text} {command : Command}

/-- A command on standard input works on the one template that it reads there, and fails where there is
none. -/
theorem runOnInput_eq (own : command.inputs = .standard) :
    runOnInput files workdir command text
      = match parse text.normalizeLineEndings with
        | .ok document =>
          (command.execute (.ofDocument document) .empty).1.finish
            (command.execute (.ofDocument document) .empty).2
        | .error cause => Transcript.empty.finish (.error (.parse cause)) := by
  simp only [runOnInput, Invocation.run, changeDirectory, Id.run_bind, Id.run_pure, own,
    Inputs.load_standard, readInput]
  cases parse text.normalizeLineEndings <;> simp

/-- Formatting prints a template in the block layout, with a line feed behind it. -/
theorem runOnInput_format {document : Document}
    (reads : parse text.normalizeLineEndings = .ok document) :
    runOnInput files workdir (.format .standard false) text
      = ⟨0, document.render (.block 0) ++ ['\n'], []⟩ := by
  rw [runOnInput_eq rfl, reads]
  rfl

/-- A template passes the check exactly if its printed form reads back as a template that prints the
same. -/
theorem failure?_eq_none_iff {template : Template} :
    Templates.failure? template = none
      ↔ ∃ again, parse (template.document.render (.block 0)) = .ok again
        ∧ again.render (.block 0) = template.document.render (.block 0) := by
  rw [Templates.failure?]
  cases parse (template.document.render (.block 0)) with
  | error cause => simp only [reduceCtorEq, false_and, exists_false]
  | ok again => simp only [ite_eq_left_iff, reduceCtorEq, imp_false, Decidable.not_not,
      Except.ok.injEq, exists_eq_left']

/-- A check of standard input passes exactly if a template is read there and passes it. -/
theorem exitCode_check_iff :
    (runOnInput files workdir (.check .standard) text).exitCode = 0
      ↔ ∃ document again, parse text.normalizeLineEndings = .ok document
        ∧ parse (document.render (.block 0)) = .ok again
        ∧ again.render (.block 0) = document.render (.block 0) := by
  rw [runOnInput_eq rfl]
  cases parse text.normalizeLineEndings with
  | error cause => simp [Transcript.finish]
  | ok document =>
    -- A single document fails the check or not.
    have passes : ((Templates.ofDocument document).check .empty).2 = .ok ()
        ↔ Templates.failure? ⟨none, document⟩ = none := by
      have items : (Templates.ofDocument document).items = [⟨none, document⟩] := rfl
      rw [Templates.check, items, List.foldl_cons, List.foldl_nil, Templates.checkTemplate]
      cases Templates.failure? ⟨none, document⟩ <;> simp
    have code (written : Transcript) (result : Except RunError Unit) :
        (written.finish result).exitCode = 0 ↔ result = .ok () := by
      cases result <;> simp [Transcript.finish]
    simp only [Command.execute, code, passes, failure?_eq_none_iff, Except.ok.injEq, exists_and_left,
      exists_eq_left']

/-- A template on standard input that passes the check is printed by formatting, with an exit code
of 0, as a text that formatting prints once more, so long as no carriage return is in that text. -/
theorem format_stable_of_check
    (passes : (runOnInput files workdir (.check .standard) text).exitCode = 0)
    (noReturn : '\r' ∉ (runOnInput files workdir (.format .standard false) text).output) :
    (runOnInput files workdir (.format .standard false) text).exitCode = 0
      ∧ runOnInput files workdir (.format .standard false)
          (runOnInput files workdir (.format .standard false) text).output
        = runOnInput files workdir (.format .standard false) text := by
  obtain ⟨document, again, reads, rereads, same⟩ := exitCode_check_iff.mp passes
  rw [runOnInput_format reads] at noReturn ⊢
  refine ⟨rfl, ?_⟩
  -- The printed form is read with the line feed that is written behind it.
  have normal : (document.render (.block 0) ++ ['\n']).normalizeLineEndings
      = document.render (.block 0) ++ ['\n'] := Text.normalizeLineEndings_of_notMem noReturn
  obtain ⟨rest, found, blank⟩ := declarations_of_parse rereads
  obtain ⟨broken, withFeed, nothing⟩ := declarations_feed found blank
  rw [runOnInput_format (normal.symm ▸ parse_of_declarations withFeed nothing)]
  exact congrArg (fun printed => Outcome.mk 0 (printed ++ ['\n']) []) same

/-- A comment on a line that ends in a carriage return and a line feed, and a string with an escaped
carriage return in front of a template sequence. -/
theorem format_stable_of_check_lines :
    let files : Files Id := (FileTree.directory []).files
    let text : Text := "# b\r\na = \"\\r$\x7bb\x7d\"".toList
    let printed : Text := "# b\na = \"\\r$\x7bb\x7d\"\n".toList
    (runOnInput files "/".toList (.check .standard) text).exitCode = 0
      ∧ runOnInput files "/".toList (.format .standard false) text = ⟨0, printed, []⟩
      ∧ runOnInput files "/".toList (.format .standard false) printed = ⟨0, printed, []⟩ := by
  intro files text printed
  let document : Document := ⟨[.comment .hash " b".toList,
    .property .string (.bare ['a']) (.string "\r$\x7bb\x7d".toList)]⟩
  have prints : document.render (.block 0) = "# b\na = \"\\r$\x7bb\x7d\"".toList := by
    have quoted : Text.quote "\r$\x7bb\x7d".toList = "\"\\r$\x7bb\x7d\"".toList := by cbv
    exact congrArg ("# b\na = ".toList ++ ·) quoted
  have reads : parse (Text.normalizeLineEndings "# b\r\na = \"\\r$\x7bb\x7d\"".toList)
      = .ok document := by cbv
  have rereads : parse "# b\na = \"\\r$\x7bb\x7d\"".toList = .ok document := by cbv
  have passes : (runOnInput files "/".toList (.check .standard) text).exitCode = 0 :=
    exitCode_check_iff.mpr ⟨document, document, reads, prints.symm ▸ rereads, rfl⟩
  have formats : runOnInput files "/".toList (.format .standard false) text = ⟨0, printed, []⟩ := by
    rw [runOnInput_format reads, prints]
    rfl
  -- The carriage return is printed as an escape.
  have noReturn : '\r' ∉ (runOnInput files "/".toList (.format .standard false) text).output := by
    rw [formats]
    decide
  have again := (format_stable_of_check passes noReturn).2
  rw [formats] at again
  exact ⟨passes, formats, again⟩

/-- A code point completes a template sequence with a carriage return in it, which is printed as it is
and read as a line feed. -/
theorem not_format_stable_of_check :
    let files : Files Id := (FileTree.directory []).files
    let text : Text := "a = \"$\\u007b\\r\x7d\"".toList
    (runOnInput files "/".toList (.check .standard) text).exitCode = 0
      ∧ runOnInput files "/".toList (.format .standard false) text
        = ⟨0, "a = \"$\x7b\r\x7d\"\n".toList, []⟩
      ∧ runOnInput files "/".toList (.format .standard false) "a = \"$\x7b\r\x7d\"\n".toList
        = ⟨0, "a = \"$\x7b\n\x7d\"\n".toList, []⟩ := by
  intro files text
  let withContent (content : Text) : Document := ⟨[.property .string (.bare ['a']) (.string content)]⟩
  have prints {content source : Text} (quoted : content.quote = source) :
      (withContent content).render (.block 0) = "a = ".toList ++ source :=
    congrArg ("a = ".toList ++ ·) quoted
  have returned : Text.quote "$\x7b\r\x7d".toList = "\"$\x7b\r\x7d\"".toList := by cbv
  have fed : Text.quote "$\x7b\n\x7d".toList = "\"$\x7b\n\x7d\"".toList := by cbv
  have reads : parse (Text.normalizeLineEndings "a = \"$\\u007b\\r\x7d\"".toList)
      = .ok (withContent "$\x7b\r\x7d".toList) := by cbv
  have rereads : parse ("a = ".toList ++ "\"$\x7b\r\x7d\"".toList)
      = .ok (withContent "$\x7b\r\x7d".toList) := by cbv
  have normalized : parse (Text.normalizeLineEndings "a = \"$\x7b\r\x7d\"\n".toList)
      = .ok (withContent "$\x7b\n\x7d".toList) := by cbv
  refine ⟨exitCode_check_iff.mpr ⟨_, _, reads, (prints returned).symm ▸ rereads, rfl⟩, ?_, ?_⟩
  · rw [runOnInput_format reads, prints returned]
    rfl
  · rw [runOnInput_format normalized, prints fed]
    rfl

end Invocation

end HclSyntax
