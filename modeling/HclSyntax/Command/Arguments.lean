import HclSyntax.Text.Basic

/-!
# `HclSyntax.Command.Arguments`: what the command line asks for

An `Invocation` is what some arguments ask for: the directories to change to first, and a `Command`
on some `Inputs`. `Invocation.ofArguments?` reads it.

Arguments come in levels: options of the program, the name of a command, options of the command,
for `dev` one more name and its options. The option that changes the directory is allowed on every
level; if it is used on several, the innermost level counts. A switch stands for itself. Other
options take a value: behind an equals sign, in the next argument, or, after a single letter, right
behind it.
-/

set_option autoImplicit false

namespace HclSyntax

/-- The options that can be given on the command line. -/
inductive Flag where
  | directory
  | inputWorkdir
  | inputFile
  | inputDirectory
  | outputFormat
  | compact
deriving DecidableEq, Repr

namespace Flag

/-- The letter of an option, if it has one. -/
def letter? : Flag → Option Char
  | .directory => some 'C'
  | .inputWorkdir => some 'w'
  | .inputFile => some 'f'
  | .inputDirectory => some 'd'
  | .outputFormat => some 'F'
  | .compact => none

/-- The long name of an option. -/
def longName : Flag → Text
  | .directory => "directory".toList
  | .inputWorkdir => "input-workdir".toList
  | .inputFile => "input-file".toList
  | .inputDirectory => "input-dir".toList
  | .outputFormat => "output-format".toList
  | .compact => "compact".toList

/-- Whether an option takes a value. -/
def takesValue : Flag → Bool
  | .inputWorkdir | .compact => false
  | _ => true

end Flag

/-- An option that was given, with its value, which is empty for a switch. -/
abbrev Setting : Type := Flag × Text

/-- The templates a command works on. Without any of these it reads its standard input. -/
structure Inputs where
  /-- The template files of the work directory. -/
  workdir : Bool
  files : List Text
  directories : List Text
deriving DecidableEq, Repr

/-- The formats in which data is written. -/
inductive OutputFormat where
  | json
  | yaml
deriving DecidableEq, Repr

/-- The commands. -/
inductive Command where
  /-- Print templates in canonical form. -/
  | format (inputs : Inputs) (compact : Bool)
  /-- Check that templates print to a stable form. -/
  | check (inputs : Inputs)
  /-- List the tree of each template. -/
  | tree (inputs : Inputs) (format : OutputFormat)
  /-- Count the nodes of each kind. -/
  | stats (inputs : Inputs) (format : OutputFormat)
deriving DecidableEq, Repr

/-- What a command line asks for. -/
structure Invocation where
  /-- The directories to change to, one after the other. -/
  directories : List Text
  command : Command
deriving DecidableEq, Repr

namespace Arguments

/-- The options in an argument that starts with one dash, from its first letter on: switches, and
perhaps one that takes a value. If the value is not in the argument, the option waits for it. -/
def readLetters (allowed : List Flag) : Text → Option (List Setting × Option Flag)
  | [] => some ([], none)
  | c :: rest => do
    let flag ← allowed.find? (·.letter? = some c)
    if flag.takesValue then
      match rest with
      | [] => return ([], some flag)
      | '=' :: value => return ([(flag, value)], none)
      | value => return ([(flag, value)], none)
    else
      let (settings, waiting) ← readLetters allowed rest
      return ((flag, []) :: settings, waiting)

/-- The option in an argument that starts with two dashes, from its name on. -/
def readLong (allowed : List Flag) (argument : Text) : Option (List Setting × Option Flag) := do
  let name := argument.takeWhile (· ≠ '=')
  let flag ← allowed.find? (·.longName = name)
  match argument.dropWhile (· ≠ '='), flag.takesValue with
  | [], true => return ([], some flag)
  | [], false => return ([(flag, [])], none)
  | _ :: value, true => return ([(flag, value)], none)
  | _ :: _, false => none

/-- The options at the start of some arguments and what follows them, which is nothing or starts
with a name. An option that waits for its value takes the next argument. Two dashes alone end the
options, after which no argument is left to give. -/
def readOptions (allowed : List Flag) : Option Flag → List Text → Option (List Setting × List Text)
  | none, [] => some ([], [])
  | some _, [] => none
  | some flag, value :: rest => do
    if value.head? = some '-' && value.length > 1 then none
    else
      let (settings, others) ← readOptions allowed none rest
      return ((flag, value) :: settings, others)
  | none, argument :: rest => do
    let (found, waiting) ←
      match argument with
      | ['-', '-'] => if rest.isEmpty then return ([], []) else none
      | '-' :: '-' :: name => readLong allowed name
      | '-' :: c :: letters => readLetters allowed (c :: letters)
      | _ => return ([], argument :: rest)
    let (settings, others) ← readOptions allowed waiting rest
    return (found ++ settings, others)

/-- The options at the end of the arguments, with nothing after them. -/
def readLastOptions (allowed : List Flag) (arguments : List Text) : Option (List Setting) :=
  match readOptions allowed none arguments with
  | some (settings, []) => some settings
  | _ => none

/-- The values given for an option, in order. -/
def values (settings : List Setting) (flag : Flag) : List Text :=
  (settings.filter (·.1 = flag)).map Prod.snd

/-- The inputs that some options name. -/
def inputs (settings : List Setting) : Inputs where
  workdir := !(values settings .inputWorkdir).isEmpty
  files := values settings .inputFile
  directories := values settings .inputDirectory

/-- The format that some options name. -/
def outputFormat (settings : List Setting) : Option OutputFormat :=
  match (values settings .outputFormat).getLast? with
  | none => some .yaml
  | some name =>
    if name = "json".toList then some .json
    else if name = "yaml".toList then some .yaml
    else none

/-- The directories of the innermost level that names any. -/
def innermost (levels : List (List Setting)) : List Text :=
  ((levels.map fun settings => values settings .directory).reverse.find? (!·.isEmpty)).getD []

/-- The options that every command has. -/
def inputFlags : List Flag :=
  [.directory, .inputWorkdir, .inputFile, .inputDirectory]

/-- The command after `dev`, with the options of the levels before it. -/
def readDev (levels : List (List Setting)) : List Text → Option Invocation
  | [] => none
  | name :: rest => do
    let settings ← readLastOptions (.outputFormat :: inputFlags) rest
    let format ← outputFormat settings
    let command ←
      if name = "tree".toList then some (.tree (inputs settings) format)
      else if name = "stats".toList then some (.stats (inputs settings) format)
      else none
    return ⟨innermost (levels ++ [settings]), command⟩

/-- The command that starts with a name, with the options of the level before it. -/
def readCommand (settings : List Setting) : List Text → Option Invocation
  | [] => none
  | name :: rest => do
    if name = "format".toList ∨ name = "fmt".toList then
      let own ← readLastOptions (.compact :: inputFlags) rest
      return ⟨innermost [settings, own],
        .format (inputs own) !(values own .compact).isEmpty⟩
    else if name = "check".toList then
      let own ← readLastOptions inputFlags rest
      return ⟨innermost [settings, own], .check (inputs own)⟩
    else if name = "dev".toList then
      let (own, others) ← readOptions [.directory] none rest
      readDev [settings, own] others
    else none

end Arguments

/-- What some arguments ask for; nothing if they are not valid. -/
def Invocation.ofArguments? (arguments : List Text) : Option Invocation := do
  let (settings, rest) ← Arguments.readOptions [.directory] none arguments
  Arguments.readCommand settings rest

end HclSyntax
