import HclSyntax.Files.Basic

/-!
# `HclSyntax.Files.Tree`: a file system in memory

A `FileTree` is a directory tree without links: files with their bytes, and directories with named
entries. `FileTree.files` is the file system it makes.

A path is followed name by name. Each name, an empty one too, wants a directory to be looked up in;
an empty name and a single point stay there, two points go back.
-/

set_option autoImplicit false

namespace HclSyntax

/-- A file, or a directory with everything in it. -/
inductive FileTree where
  | file (bytes : ByteArray)
  | directory (entries : List (Text × FileTree))

namespace FileTree

/-- The part of a tree below some names. -/
def find? : FileTree → List Text → Option FileTree
  | tree, [] => some tree
  | .file _, _ :: _ => none
  | .directory entries, name :: rest => (entries.lookup name).bind fun below => find? below rest

/-- A tree with something put below some names, in directories that are made where there are none.
-/
def insert : FileTree → List Text → FileTree → FileTree
  | _, [], added => added
  | .file _, name :: rest, added => .directory [(name, insert (.directory []) rest added)]
  | .directory entries, name :: rest, added =>
    let below := (entries.lookup name).getD (.directory [])
    .directory (entries.filter (fun entry => entry.1 ≠ name) ++ [(name, insert below rest added)])

/-- Follows names from a place in the tree, which is given by the names that lead to it, the last
one first. The answer is given in the same way. -/
def walk (root : FileTree) : List Text → List Text → Except FileError (List Text)
  | here, [] => .ok here
  | here, name :: rest =>
    match root.find? here.reverse with
    | some (.directory entries) =>
      if name = [] ∨ name = ['.'] then walk root here rest
      else if name = ['.', '.'] then walk root here.tail rest
      else if (entries.lookup name).isSome then walk root (name :: here) rest
      else .error .notFound
    | _ => .error .notADirectory

/-- The names that lead to what an absolute path means, without detours. -/
def place (root : FileTree) (path : Text) : Except FileError (List Text) :=
  if path.isEmpty then .error .notFound
  else (walk root [] (Path.names path)).map List.reverse

/-- Names as an absolute path. -/
def pathOf (names : List Text) : Text :=
  if names.isEmpty then ['/'] else names.flatMap ('/' :: ·)

/-- What stands at an absolute path. -/
def at? (root : FileTree) (path : Text) : Except FileError FileTree := do
  let names ← root.place path
  match root.find? names with
  | some found => return found
  | none => throw .notFound

/-- The text of the file at a path. -/
def readText (root : FileTree) (path : Text) : Except FileError Text := do
  match ← root.at? path with
  | .file bytes => decodeText bytes
  | .directory _ => throw .isADirectory

/-- What the directory at a path holds. -/
def entries (root : FileTree) (path : Text) : Except FileError (List Entry) := do
  match ← root.at? path with
  | .file _ => throw .notADirectory
  | .directory found => return found.map fun (name, below) => ⟨name, below matches .file _⟩

/-- The file system that a tree makes. -/
def files (root : FileTree) : Files Id where
  resolve path := (root.place path).map pathOf
  readText path := root.readText path
  entries path := root.entries path

end FileTree

end HclSyntax
