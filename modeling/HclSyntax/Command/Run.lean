import HclSyntax.Command.Arguments
import HclSyntax.Data.Json
import HclSyntax.Data.Yaml
import HclSyntax.Node.Listing
import HclSyntax.Node.Render
import HclSyntax.Node.Visit
import HclSyntax.Templates

/-!
# `HclSyntax.Command.Run`: running a command

A command loads its templates and then goes through them, writing as it goes: its results to standard
output, and what is wrong with a template to standard error. A `Transcript` is what has been written
so far. `Invocation.run` asks for files and standard input through the monad `m` and answers with an
`Outcome`: the two outputs and the exit code.
-/

set_option autoImplicit false

namespace HclSyntax

/-- What a run leaves behind. -/
structure Outcome where
  exitCode : Nat
  output : Text
  errors : Text
deriving DecidableEq, Repr

/-- Why a run fails. -/
inductive RunError where
  /-- A directory to change to does not exist. -/
  | unresolvedDirectory (path : Text) (error : FileError)
  /-- What was to be changed to is no directory. -/
  | unusableDirectory (path : Text) (error : FileError)
  /-- Standard input cannot be read. -/
  | input (error : FileError)
  /-- Standard input is no template. -/
  | parse (error : ParseError)
  | load (error : LoadError)
  | nothingLoaded
  /-- This many templates failed the check. -/
  | check (failures : Nat)

/-- The lines that are shown for an error. -/
def RunError.messages : RunError → List Text
  | .unresolvedDirectory path error =>
    ["Failed to resolve path for -C/--directory ".toList ++ path, error.message]
  | .unusableDirectory path error =>
    ["Failed to set work directory to ".toList ++ path, error.message]
  | .input error => [error.message]
  | .parse error => [error.message]
  | .load error => error.messages
  | .nothingLoaded => ["No files loaded".toList]
  | .check failures => [Text.ofNat failures ++ " template(s) failed the check".toList]

/-! ### Writing -/

/-- What a run has written so far to standard output and to standard error. -/
structure Transcript where
  output : Text
  errors : Text

namespace Transcript

/-- Nothing is written yet. -/
def empty : Transcript := ⟨[], []⟩

/-- Writes to standard output. -/
def write (written : Transcript) (text : Text) : Transcript :=
  { written with output := written.output ++ text }

/-- Writes a line to standard output. -/
def writeLine (written : Transcript) (line : Text) : Transcript :=
  written.write (line ++ ['\n'])

/-- Writes a line to standard error. -/
def reportLine (written : Transcript) (line : Text) : Transcript :=
  { written with errors := written.errors ++ line ++ ['\n'] }

/-- Ends a run. An error is reported line by line and makes the exit code 1. -/
def finish (written : Transcript) : Except RunError Unit → Outcome
  | .ok () => ⟨0, written.output, written.errors⟩
  | .error error =>
    let reported := error.messages.foldl reportLine written
    ⟨1, reported.output, reported.errors⟩

end Transcript

/-! ### What commands write -/

/-- The name under which a template is shown: the path it was loaded from. Paths are Unicode text here,
so nothing of a path is lost in its name. -/
def Template.name (template : Template) : Text :=
  template.path.getD "<stdin>".toList

namespace Templates

/-- Writes a template in some layout, under its name or without it. -/
def writeTemplate (withName : Bool) (layout : Layout) (written : Transcript) (template : Template) :
    Transcript :=
  let named := if withName then written.writeLine ("# ".toList ++ template.name) else written
  named.writeLine (template.document.render layout)

/-- Writes the templates in canonical form, each under its name if there are several; or each on a
line. -/
def format (templates : Templates) (compact : Bool) (written : Transcript) : Transcript :=
  let layout := if compact then Layout.compact else .block 0
  let withNames := templates.size > 1 && !compact
  templates.items.foldl (writeTemplate withNames layout) written

/-- What is wrong with a template whose printed form does not read back as something that prints the
same. -/
def failure? (template : Template) : Option Text :=
  let printed := template.document.render (.block 0)
  match parse printed with
  | .error error =>
    some (template.name ++ ": printed form does not parse: ".toList ++ error.message)
  | .ok document =>
    if document.render (.block 0) = printed then none
    else some (template.name ++ ": printed form is not stable".toList)

/-- Checks one more template: reports what is wrong with it, and counts it if something is. -/
def checkTemplate : Transcript × Nat → Template → Transcript × Nat
  | (written, failures), template =>
    match failure? template with
    | none => (written, failures)
    | some line => (written.reportLine line, failures + 1)

/-- Checks every template, and says that all is well if it is. -/
def check (templates : Templates) (written : Transcript) : Transcript × Except RunError Unit :=
  match templates.items.foldl checkTemplate (written, 0) with
  | (reported, 0) =>
    (reported.writeLine (Text.ofNat templates.size ++ " template(s) ok".toList), .ok ())
  | (reported, failures) => (reported, .error (.check failures))

/-- Fields with the value of one of them replaced, or with a field added at the end. -/
def putField {α : Type} (key : Text) (value : α) : List (Text × α) → List (Text × α)
  | [] => [(key, value)]
  | (name, old) :: rest =>
    if name = key then (key, value) :: rest else (name, old) :: putField key value rest

/-- The trees of the templates by name. Of templates with the same name the last one is shown, in
the place of the first. -/
def trees (templates : Templates) : Data :=
  .record <| templates.items.foldl
    (fun fields template => putField template.name template.document.root.listing fields) []

/-- The kinds of the nodes of all templates. -/
def kinds (templates : Templates) : List Kind :=
  templates.items.flatMap fun template =>
    template.document.root.visits.map fun (_, node) => node.kind

/-- Counts one more of a kind. -/
def countKind (counts : List (Text × Nat)) (kind : Kind) : List (Text × Nat) :=
  putField kind.word ((counts.lookup kind.word).getD 0 + 1) counts

/-- The number of nodes of each kind, in the order in which the kinds come up. -/
def stats (templates : Templates) : Data :=
  .record <| (templates.kinds.foldl countKind []).map fun (word, count) => (word, .number count)

end Templates

/-- Data in a format. -/
def OutputFormat.write : OutputFormat → Data → Text
  | .json, data => data.toJson
  | .yaml, data => data.toYaml

/-! ### Loading and running -/

/-- The inputs of a command. -/
def Command.inputs : Command → Inputs
  | .format inputs _ => inputs
  | .check inputs => inputs
  | .tree inputs _ => inputs
  | .stats inputs _ => inputs

/-- What a command does with the templates it has loaded. -/
def Command.execute (templates : Templates) (written : Transcript) :
    Command → Transcript × Except RunError Unit
  | .format _ compact => (templates.format compact written, .ok ())
  | .check _ => templates.check written
  | .tree _ form => (written.write (form.write templates.trees), .ok ())
  | .stats _ form => (written.write (form.write templates.stats), .ok ())

section

variable {m : Type → Type} [Monad m]

/-- Loads the template files of some directories, up to the first failure. -/
def Templates.loadDirectories (files : Files m) (templates : Templates) :
    List Text → m (Templates × Except LoadError Unit)
  | [] => return (templates, .ok ())
  | path :: rest => do
    match ← templates.loadDirectory files path with
    | (added, .ok ()) => added.loadDirectories files rest
    | failed => return failed

/-- The templates on standard input. -/
def readInput (input : m (Except FileError Text)) : m (Except RunError Templates) := do
  match ← input with
  | .error error => return .error (.input error)
  | .ok text =>
    match parse text.normalizeLineEndings with
    | .error error => return .error (.parse error)
    | .ok document => return .ok (.ofDocument document)

/-- The templates of some inputs: those of the work directory, then the files, then those of the
directories. -/
def Inputs.load (files : Files m) (input : m (Except FileError Text)) (workdir : Text)
    (inputs : Inputs) : m (Except RunError Templates) := do
  if !inputs.workdir && inputs.files.isEmpty && inputs.directories.isEmpty then readInput input
  else
    let own := if inputs.workdir then [workdir] else []
    match ← Templates.empty.loadDirectories files own with
    | (_, .error error) => return .error (.load error)
    | (templates, .ok ()) =>
      match ← templates.loadFiles files (inputs.files.map (Path.within workdir)) with
      | (_, .error error) => return .error (.load error)
      | (templates, .ok ()) =>
        match ← templates.loadDirectories files
            (inputs.directories.map (Path.within workdir)) with
        | (_, .error error) => return .error (.load error)
        | (templates, .ok ()) =>
          if templates.size = 0 then return .error .nothingLoaded else return .ok templates

/-- The work directory after changing to some directories, one after the other. -/
def changeDirectory (files : Files m) (workdir : Text) : List Text → m (Except RunError Text)
  | [] => return .ok workdir
  | path :: rest => do
    match ← files.resolve (Path.within workdir path) with
    | .error error => return .error (.unresolvedDirectory path error)
    | .ok resolved =>
      match ← files.entries resolved with
      | .error error => return .error (.unusableDirectory resolved error)
      | .ok _ => changeDirectory files resolved rest

/-- Runs a command in a work directory. -/
def Invocation.run (files : Files m) (input : m (Except FileError Text)) (workdir : Text)
    (invocation : Invocation) : m Outcome := do
  match ← changeDirectory files workdir invocation.directories with
  | .error error => return Transcript.empty.finish (.error error)
  | .ok workdir =>
    match ← invocation.command.inputs.load files input workdir with
    | .error error => return Transcript.empty.finish (.error error)
    | .ok templates =>
      let (written, result) := invocation.command.execute templates .empty
      return written.finish result

end

end HclSyntax
