import HclSyntax.Files.Basic
import HclSyntax.Parse
import HclSyntax.Text.LineEnding

/-!
# `HclSyntax.Templates`: collections of templates

A collection keeps the documents that were added, in order, and beside them the paths they were
loaded from; `Templates.items` pairs the two up. Loading a file adds its document or nothing. Loading
a directory adds its template files in the order of their names and stops at the first one that
cannot be loaded; what was added before stays. The order in which the file system lists the directory
has no influence.
-/

set_option autoImplicit false

namespace HclSyntax

/-- A document and the path it was loaded from, if it comes from a file. -/
structure Template where
  path : Option Text
  document : Document

/-- A collection of templates in the order in which they were added: the documents, and beside each
of them the path it was loaded from. -/
structure Templates where
  sources : List (Option Text)
  documents : List Document

/-- Why a file or directory cannot be loaded. -/
inductive LoadError where
  /-- The directory holds no template file. -/
  | noFilesFound
  | file (error : FileError)
  /-- The file at this path is no template. -/
  | parse (path : Text) (error : ParseError)

/-- The wording of an error, followed by the wording of its cause. -/
def LoadError.messages : LoadError → List Text
  | .noFilesFound => ["No template files found in directory".toList]
  | .file error => ["IO error".toList, error.message]
  | .parse path error => ["Unable to parse ".toList ++ path, error.message]

/-- The order of texts by their first difference. A beginning comes before what it begins. -/
def Text.precedes : Text → Text → Bool
  | [], _ => true
  | _ :: _, [] => false
  | a :: rest, b :: others => a < b || (a = b && precedes rest others)

/-- The extensions of template files. -/
def templateExtensions : List Text :=
  ["tf".toList, "tfvars".toList, "hcl".toList]

/-- Whether something in a directory is a template file. -/
def Entry.isTemplate (entry : Entry) : Bool :=
  entry.isFile && (Path.extension? entry.name).any templateExtensions.contains

/-- The names of the template files among the entries of a directory, sorted. -/
def templateNames (entries : List Entry) : List Text :=
  ((entries.filter Entry.isTemplate).map Entry.name).mergeSort Text.precedes

namespace Templates

/-- The collection without templates. -/
def empty : Templates := ⟨[], []⟩

/-- Adds a document at the end. -/
def insert (templates : Templates) (path : Option Text) (document : Document) : Templates :=
  ⟨templates.sources ++ [path], templates.documents ++ [document]⟩

/-- The collection of one document that comes from no file. -/
def ofDocument (document : Document) : Templates := empty.insert none document

/-- The documents, each with its path. -/
def items (templates : Templates) : List Template :=
  List.zipWith Template.mk templates.sources templates.documents

/-- The number of templates. -/
def size (templates : Templates) : Nat :=
  templates.sources.length

variable {m : Type → Type} [Monad m]

/-- The document that a file holds, and the path of the file without detours. Line endings are
normalized first. -/
def readFile (files : Files m) (path : Text) : m (Except LoadError (Text × Document)) := do
  match ← files.resolve path with
  | .error error => return .error (.file error)
  | .ok resolved =>
    match ← files.readText resolved with
    | .error error => return .error (.file error)
    | .ok text =>
      match parse text.normalizeLineEndings with
      | .error error => return .error (.parse resolved error)
      | .ok document => return .ok (resolved, document)

/-- Adds the document of a file. When that fails the collection stays as it was. -/
def loadFile (files : Files m) (templates : Templates) (path : Text) :
    m (Templates × Except LoadError Unit) := do
  match ← readFile files path with
  | .error error => return (templates, .error error)
  | .ok (resolved, document) => return (templates.insert (some resolved) document, .ok ())

/-- Adds the documents of some files up to the first that cannot be loaded. -/
def loadFiles (files : Files m) (templates : Templates) :
    List Text → m (Templates × Except LoadError Unit)
  | [] => return (templates, .ok ())
  | path :: rest => do
    match ← loadFile files templates path with
    | (added, .ok ()) => loadFiles files added rest
    | failed => return failed

/-- Adds the template files of a directory, but not those of the directories in it. -/
def loadDirectory (files : Files m) (templates : Templates) (path : Text) :
    m (Templates × Except LoadError Unit) := do
  match ← files.entries path with
  | .error error => return (templates, .error (.file error))
  | .ok entries =>
    let names := templateNames entries
    if names.isEmpty then return (templates, .error .noFilesFound)
    else loadFiles files templates (names.map (Path.child path))

end Templates

end HclSyntax
