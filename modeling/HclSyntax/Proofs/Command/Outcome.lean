import HclSyntax.Command.Run

/-!
# `HclSyntax.Proofs.Command.Outcome`: a run leaves everything or nothing

A run either succeeds and reports no error, or it fails, says why, and writes nothing to standard
output (`Outcome.AllOrNothing`). The commands write as they go, so this needs two facts about a
`Transcript`: formatting and listing only add to its output (`Templates.format_errors`), and checking
only adds to its errors until all templates are through, as many reports as it counts failures
(`Templates.Reports`). `Command.execute_settled` puts them together, and `Invocation.run_allOrNothing`
concludes for every invocation, file system and standard input.
-/

set_option autoImplicit false

namespace HclSyntax

/-- A run succeeds without a word on standard error, or fails with nothing on standard output and the
reason on standard error. -/
structure Outcome.AllOrNothing (outcome : Outcome) : Prop where
  exitCode : outcome.exitCode = 0 ∨ outcome.exitCode = 1
  success : outcome.exitCode = 0 → outcome.errors = []
  failure : outcome.exitCode = 1 → outcome.output = [] ∧ outcome.errors ≠ []

/-- Every error has a wording. -/
theorem RunError.messages_ne_nil (error : RunError) : error.messages ≠ [] := by
  cases error with
  | load error => cases error <;> simp [messages, LoadError.messages]
  | _ => simp [messages]

/-! ### Ending a run -/

namespace Transcript

/-- Writing reports nothing. -/
@[simp] theorem errors_write (written : Transcript) (text : Text) :
    (written.write text).errors = written.errors := rfl

/-- Writing a line reports nothing. -/
@[simp] theorem errors_writeLine (written : Transcript) (line : Text) :
    (written.writeLine line).errors = written.errors := rfl

/-- Reporting a line writes nothing. -/
@[simp] theorem output_reportLine (written : Transcript) (line : Text) :
    (written.reportLine line).output = written.output := rfl

/-- Nor does reporting several lines. -/
theorem output_foldl_reportLine (written : Transcript) (lines : List Text) :
    (lines.foldl reportLine written).output = written.output := by
  induction lines generalizing written with
  | nil => rfl
  | cons line rest ih => exact ih (written.reportLine line)

/-- The lines that are reported follow what was reported before, in order. -/
theorem errors_foldl_reportLine (written : Transcript) (lines : List Text) :
    (lines.foldl reportLine written).errors
      = written.errors ++ lines.flatMap fun line => line ++ ['\n'] := by
  induction lines generalizing written with
  | nil => simp
  | cons line rest ih => simp [ih, reportLine]

/-- What is written fits how the run ends: no error was reported if it succeeds, and there is no
output if it fails. -/
def Settled (written : Transcript) : Except RunError Unit → Prop
  | .ok () => written.errors = []
  | .error _ => written.output = []

/-- A run that ends in what fits its transcript leaves everything or nothing. -/
theorem Settled.finish {written : Transcript} {result : Except RunError Unit}
    (settled : written.Settled result) : (written.finish result).AllOrNothing := by
  cases result with
  | ok => exact ⟨.inl rfl, fun _ => settled, nofun⟩
  | error error =>
    refine ⟨.inr rfl, nofun, fun _ => ⟨(output_foldl_reportLine _ _).trans settled, ?_⟩⟩
    obtain ⟨line, rest, messages⟩ := List.exists_cons_of_ne_nil error.messages_ne_nil
    show (error.messages.foldl reportLine written).errors ≠ []
    simp only [errors_foldl_reportLine, messages, List.flatMap_cons]
    simp

end Transcript

/-! ### What the commands write -/

namespace Templates

/-- Formatting reports no error. -/
theorem format_errors (templates : Templates) (compact : Bool) (written : Transcript) :
    (templates.format compact written).errors = written.errors := by
  simp only [format]
  generalize templates.items = items
  induction items generalizing written with
  | nil => rfl
  | cons template rest ih =>
    rw [List.foldl_cons, ih]
    unfold writeTemplate
    split <;> simp

/-- Between two states of a check something may have been reported, but not written to the output,
and every report is counted. -/
structure Reports (before after : Transcript × Nat) : Prop where
  output : after.1.output = before.1.output
  count : before.2 ≤ after.2
  errors : after.2 = before.2 → after.1.errors = before.1.errors

/-- In between nothing need happen. -/
theorem Reports.refl (state : Transcript × Nat) : Reports state state :=
  ⟨rfl, Nat.le_refl _, fun _ => rfl⟩

/-- One part of a check may follow another. -/
theorem Reports.trans {before middle after : Transcript × Nat} (h : Reports before middle)
    (further : Reports middle after) : Reports before after where
  output := further.output.trans h.output
  count := Nat.le_trans h.count further.count
  errors same := by
    have := h.count
    have := further.count
    rw [further.errors (by omega), h.errors (by omega)]

/-- Checking one template reports what it counts. -/
theorem checkTemplate_reports (state : Transcript × Nat) (template : Template) :
    Reports state (checkTemplate state template) := by
  obtain ⟨written, failures⟩ := state
  simp only [checkTemplate]
  cases failure? template with
  | none => exact .refl _
  | some line => exact ⟨rfl, Nat.le_succ _, fun same => absurd same (Nat.succ_ne_self _)⟩

/-- Checking several templates writes nothing, and every report is counted. -/
theorem foldl_checkTemplate_reports (state : Transcript × Nat) (items : List Template) :
    Reports state (items.foldl checkTemplate state) := by
  induction items generalizing state with
  | nil => exact .refl state
  | cons template rest ih => exact (checkTemplate_reports state template).trans (ih _)

/-- A check that starts with nothing written ends in what fits its transcript: no template was
reported if none is counted, and the line that all is well is only written then. -/
theorem check_settled (templates : Templates) :
    (templates.check .empty).1.Settled (templates.check .empty).2 := by
  have reports := foldl_checkTemplate_reports (.empty, 0) templates.items
  unfold check
  split
  next reported checked => exact (checked ▸ reports).errors rfl
  next reported failures _ checked => exact (checked ▸ reports).output

end Templates

/-- What a command writes fits how it ends. -/
theorem Command.execute_settled (templates : Templates) (command : Command) :
    (command.execute templates .empty).1.Settled (command.execute templates .empty).2 := by
  cases command with
  | format inputs compact => exact templates.format_errors compact .empty
  | check inputs => exact templates.check_settled
  | tree inputs form => rfl
  | stats inputs form => rfl

/-- Every run leaves everything or nothing, whatever it is asked for, whatever the files are and
whatever standard input holds. A failure to change the directory, to read, load or parse an input, or
to check a template never comes with output. -/
theorem Invocation.run_allOrNothing (invocation : Invocation) (files : Files Id)
    (input : Except FileError Text) (workdir : Text) :
    (Id.run (invocation.run files input workdir)).AllOrNothing := by
  have fails (error : RunError) : (Transcript.empty.finish (.error error)).AllOrNothing :=
    (show Transcript.empty.Settled (.error error) from rfl).finish
  simp only [Invocation.run, Id.run_bind]
  split
  · exact fails _
  · simp only [Id.run_bind]
    split
    · exact fails _
    · exact (invocation.command.execute_settled _).finish

end HclSyntax
