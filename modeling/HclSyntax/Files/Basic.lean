import HclSyntax.Text.Basic

/-!
# `HclSyntax.Files.Basic`: what loading asks of a file system

Loading templates asks three things of a file system: what a path means (`Files.resolve`), what
text a file holds (`Files.readText`) and what a directory holds (`Files.entries`). `Files m` is a
file system that answers in the monad `m`, so that the same loading runs on the machine's files and
on a tree in memory (`HclSyntax.Files.Tree`).

Paths are texts. Those given to a file system are absolute: `Path.within` says what a path means in
a work directory. A system may also have names that are no Unicode text. They are outside the model:
a path with such a name would be shown and listed by an approximation of it, with replacement
characters in place of what cannot be decoded.
-/

set_option autoImplicit false

namespace HclSyntax

/-- Why a file system cannot answer. -/
inductive FileError where
  | notFound
  /-- The path goes through something that is no directory, or a directory was wanted. -/
  | notADirectory
  /-- A file was wanted. -/
  | isADirectory
  /-- The file is not UTF-8 text. -/
  | invalidText
  /-- Anything else, in the words of the system. -/
  | other (message : Text)
deriving DecidableEq, Repr

/-- The wording of an error, with the number the system gives it. -/
def FileError.message : FileError → Text
  | .notFound => "No such file or directory (os error 2)".toList
  | .notADirectory => "Not a directory (os error 20)".toList
  | .isADirectory => "Is a directory (os error 21)".toList
  | .invalidText => "stream did not contain valid UTF-8".toList
  | .other message => message

/-- The text that some bytes are the UTF-8 form of. -/
def decodeText (bytes : ByteArray) : Except FileError Text :=
  match String.fromUTF8? bytes with
  | some text => .ok text.toList
  | none => .error .invalidText

/-- Something in a directory. -/
structure Entry where
  /-- The file name, without the path of the directory. -/
  name : Text
  /-- Whether it is a regular file. -/
  isFile : Bool
deriving DecidableEq, Repr

/-- A file system that answers in `m`. -/
structure Files (m : Type → Type) where
  /-- The path of an existing file or directory without detours. -/
  resolve : Text → m (Except FileError Text)
  /-- The text of a file. -/
  readText : Text → m (Except FileError Text)
  /-- What a directory holds, in any order. -/
  entries : Text → m (Except FileError (List Entry))

namespace Path

/-- The path of something in a directory: the name behind the path of the directory, with a slash in
between unless that path ends with one or is empty. A path that is absolute already stays as it is. -/
def child (directory name : Text) : Text :=
  if name.head? = some '/' then name
  else if directory.isEmpty || directory.getLast? = some '/' then directory ++ name
  else directory ++ '/' :: name

/-- What a path means in a work directory. The empty path means nothing anywhere and stays empty. -/
def within (directory path : Text) : Text :=
  if path.isEmpty then [] else child directory path

/-- The extension of a file name: what follows its last point, unless that point is its first
character or there is none. -/
def extension? (name : Text) : Option Text :=
  let backwards := name.reverse
  let stem := (backwards.dropWhile (· ≠ '.')).drop 1
  if stem.isEmpty then none else some (backwards.takeWhile (· ≠ '.')).reverse

/-- The names on a path, from left to right. A slash at the end has an empty name after it. -/
def names : Text → List Text
  | [] => [[]]
  | c :: rest =>
    if c = '/' then [] :: names rest
    else
      match names rest with
      | [] => [[c]]
      | name :: others => (c :: name) :: others

end Path

end HclSyntax
