import HclSyntax.Command.Run

/-!
# `HclSyntax.Main`: the program

The program reads its arguments, runs the command they ask for on the machine's files and standard
input, and hands on the outcome. Everything it decides is decided by `Invocation.ofArguments?` and
`Invocation.run`.
-/

set_option autoImplicit false

namespace HclSyntax.Main

/-- The cause of an error of the system. -/
def fileError (error : IO.Error) : FileError :=
  match error with
  | .noFileOrDirectory .. => .notFound
  | .inappropriateType _ code _ =>
    if code = 20 then .notADirectory
    else if code = 21 then .isADirectory
    else .other error.toString.toList
  | _ => .other error.toString.toList

/-- An action with its error as an answer. -/
def answering {α : Type} (action : IO α) : IO (Except FileError α) := do
  try
    return .ok (← action)
  catch error =>
    return .error (fileError error)

/-- The path of an existing file or directory without detours. It is opened first, because that says
why a path does not exist. -/
def resolve (path : Text) : IO Text := do
  IO.FS.withFile (String.ofList path) .read fun _ => return ()
  return (← IO.FS.realPath (String.ofList path)).toString.toList

/-- What a directory holds. -/
def entries (path : Text) : IO (List Entry) := do
  let resolved ← resolve path
  let found ← (← IO.FS.realPath (String.ofList resolved)).readDir
  found.toList.mapM fun entry => do
    let metadata ← entry.path.symlinkMetadata
    return ⟨entry.fileName.toList, metadata.type == .file⟩

/-- The files of the machine. -/
def files : Files IO where
  resolve path := answering (resolve path)
  readText path := do
    match ← answering (IO.FS.readBinFile (String.ofList path)) with
    | .ok bytes => return decodeText bytes
    | .error error => return .error error
  entries path := answering (entries path)

/-- All of standard input. -/
def standardInput : IO (Except FileError Text) := do
  try
    return .ok (← (← IO.getStdin).readToEnd).toList
  catch _ =>
    return .error .invalidText

end HclSyntax.Main

open HclSyntax in
/-- Runs the command line. Arguments that ask for nothing end the program with code 2. -/
def main (arguments : List String) : IO UInt32 := do
  match Invocation.ofArguments? (arguments.map String.toList) with
  | none =>
    IO.eprintln "usage: [-C DIRECTORY]... (format | check | dev tree | dev stats) [OPTION]..."
    return 2
  | some invocation =>
    let workdir ← IO.FS.realPath "."
    let outcome ← invocation.run Main.files Main.standardInput workdir.toString.toList
    IO.print (String.ofList outcome.output)
    IO.eprint (String.ofList outcome.errors)
    return outcome.exitCode.toUInt32
