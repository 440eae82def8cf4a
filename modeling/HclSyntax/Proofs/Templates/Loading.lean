import HclSyntax.Proofs.Templates.Names
import Mathlib.Data.List.Forall2

/-!
# `HclSyntax.Proofs.Templates.Loading`: collections grow by whole templates

A collection changes in three ways (`LoadStep`): a document is inserted, a file is loaded, or a
directory is. `LoadStep.Adds` says what each of them may add, in terms of the file system alone: the
template that a file holds (`Files.Holds`), or the templates of a directory up to the first file that
holds none (`Files.AddsDirectory`).

* `Templates.apply_adds`: one step adds this to the end of a collection and changes nothing else;
* `Templates.run_aligned`: through any number of steps each document keeps its path beside it;
* `Templates.run_adds`: both together, for every step of every run from the empty collection.
-/

set_option autoImplicit false

namespace HclSyntax

/-! ### What a file holds -/

namespace Files

variable (files : Files Id)

/-- The file at a path holds a template: the path of the template is the one without detours, and its
document is what the text of the file is read as once its line endings are normalized. -/
def Holds (path : Text) (template : Template) : Prop :=
  ∃ resolved text, files.resolve path = .ok resolved ∧ files.readText resolved = .ok text
    ∧ template.path = some resolved
    ∧ parse text.normalizeLineEndings = .ok template.document

/-- The file at a path holds no template, for this cause. -/
inductive Fails (path : Text) : LoadError → Prop
  | unresolved {error : FileError} (resolve : files.resolve path = .error error) :
    Fails path (.file error)
  | unreadable {resolved : Text} {error : FileError} (resolve : files.resolve path = .ok resolved)
    (read : files.readText resolved = .error error) : Fails path (.file error)
  | faulty {resolved text : Text} {error : ParseError} (resolve : files.resolve path = .ok resolved)
    (read : files.readText resolved = .ok text)
    (parse : parse text.normalizeLineEndings = .error error) : Fails path (.parse resolved error)

/-- What loading a directory adds, given how it ends. The templates are those of the template files
in the order of their names. -/
inductive AddsDirectory (path : Text) : Except LoadError Unit → List Template → Prop
  | unreadable {error : FileError} (list : files.entries path = .error error) :
    AddsDirectory path (.error (.file error)) []
  | empty {entries : List Entry} (list : files.entries path = .ok entries)
    (none : NamesTemplates entries []) : AddsDirectory path (.error .noFilesFound) []
  | stopped {entries : List Entry} {front back : List Text} {name : Text} {added : List Template}
    {error : LoadError} (list : files.entries path = .ok entries)
    (order : NamesTemplates entries (front ++ name :: back))
    (holds : List.Forall₂ (fun name => files.Holds (Path.child path name)) front added)
    (fails : files.Fails (Path.child path name) error) : AddsDirectory path (.error error) added
  | whole {entries : List Entry} {names : List Text} {added : List Template}
    (list : files.entries path = .ok entries) (order : NamesTemplates entries names)
    (some : names ≠ [])
    (holds : List.Forall₂ (fun name => files.Holds (Path.child path name)) names added) :
    AddsDirectory path (.ok ()) added

/-- Reading a file gives the template it holds, or says why it holds none. -/
theorem readFile_cases (path : Text) :
    (∃ resolved document, Templates.readFile files path = .ok (resolved, document)
        ∧ files.Holds path ⟨some resolved, document⟩)
      ∨ ∃ error, Templates.readFile files path = .error error ∧ files.Fails path error := by
  unfold Templates.readFile
  cases resolve : files.resolve path with
  | error error => exact .inr ⟨.file error, by simp [bind, pure], .unresolved resolve⟩
  | ok resolved =>
    cases read : files.readText resolved with
    | error error =>
      exact .inr ⟨.file error, by simp [bind, pure, read], .unreadable resolve read⟩
    | ok text =>
      cases parsed : parse text.normalizeLineEndings with
      | error error =>
        exact .inr ⟨.parse resolved error, by simp [bind, pure, read, parsed],
          .faulty resolve read parsed⟩
      | ok document =>
        exact .inl ⟨resolved, document, by simp [bind, pure, read, parsed],
          resolved, text, resolve, read, rfl, parsed⟩

end Files

/-! ### Steps -/

/-- A step that changes a collection. -/
inductive LoadStep where
  | insert (path : Option Text) (document : Document)
  | file (path : Text)
  | directory (path : Text)

namespace LoadStep

variable (files : Files Id)

/-- The collection after a step, and how the step ends. -/
def apply (templates : Templates) : LoadStep → Templates × Except LoadError Unit
  | insert path document => (templates.insert path document, .ok ())
  | file path => templates.loadFile files path
  | directory path => templates.loadDirectory files path

/-- The collection after some steps, whether they succeed or not. -/
def run (templates : Templates) (steps : List LoadStep) : Templates :=
  steps.foldl (fun reached step => (step.apply files reached).1) templates

/-- What a step adds, given how it ends. -/
def Adds : LoadStep → Except LoadError Unit → List Template → Prop
  | insert path document, result, added => result = .ok () ∧ added = [⟨path, document⟩]
  | file path, .ok (), added => ∃ template, files.Holds path template ∧ added = [template]
  | file path, .error error, added => files.Fails path error ∧ added = []
  | directory path, result, added => files.AddsDirectory path result added

end LoadStep

namespace Templates

/-- Each document has its path beside it. -/
def Aligned (templates : Templates) : Prop :=
  templates.sources.length = templates.documents.length

/-- The templates of the first collection are those of the second and some more behind them, and in
both each document has its path beside it. -/
structure Grows (before after : Templates) (added : List Template) : Prop where
  items : after.items = before.items ++ added
  aligned : after.Aligned

variable (files : Files Id) {templates : Templates}

/-- The empty collection has as many paths as templates. -/
theorem aligned_empty : empty.Aligned := rfl

/-- A collection may stay as it is. -/
theorem Grows.refl (aligned : templates.Aligned) : Grows templates templates [] :=
  ⟨(List.append_nil _).symm, aligned⟩

/-- What is added later stands behind what was added before. -/
theorem Grows.trans {before middle after : Templates} {first second : List Template}
    (h : Grows before middle first) (further : Grows middle after second) :
    Grows before after (first ++ second) :=
  ⟨by rw [further.items, h.items, List.append_assoc], further.aligned⟩

/-- Inserting adds one template at the end. -/
theorem grows_insert (aligned : templates.Aligned) (path : Option Text) (document : Document) :
    Grows templates (templates.insert path document) [⟨path, document⟩] where
  items := List.zipWith_append aligned
  aligned := by simpa [Aligned, insert] using aligned

/-- Loading a file adds the template it holds, or nothing. -/
theorem loadFile_holds_or_fails (templates : Templates) (path : Text) :
    (∃ template, files.Holds path template
        ∧ loadFile files templates path = (templates.insert template.path template.document, .ok ()))
      ∨ ∃ error, files.Fails path error
        ∧ loadFile files templates path = (templates, .error error) := by
  unfold loadFile
  rcases files.readFile_cases path with ⟨resolved, document, read, holds⟩ | ⟨error, read, fails⟩
  · exact .inl ⟨_, holds, by simp [bind, pure, read]⟩
  · exact .inr ⟨error, fails, by simp [bind, pure, read]⟩

/-- Loading a file adds its template or fails and adds nothing. -/
theorem loadFile_cases (aligned : templates.Aligned) (path : Text) :
    (∃ after template, templates.loadFile files path = (after, .ok ())
        ∧ files.Holds path template ∧ Grows templates after [template])
      ∨ ∃ error, templates.loadFile files path = (templates, .error error)
        ∧ files.Fails path error := by
  rcases loadFile_holds_or_fails files templates path with
    ⟨template, holds, loaded⟩ | ⟨error, fails, failed⟩
  · exact .inl ⟨_, template, loaded, holds, grows_insert aligned _ _⟩
  · exact .inr ⟨error, failed, fails⟩

/-- Loading files adds the templates they hold, up to the first that holds none. -/
theorem loadFiles_cases (aligned : templates.Aligned) (paths : List Text) :
    (∃ after added, templates.loadFiles files paths = (after, .ok ())
        ∧ List.Forall₂ files.Holds paths added ∧ Grows templates after added)
      ∨ ∃ after added front path back error, templates.loadFiles files paths = (after, .error error)
        ∧ paths = front ++ path :: back ∧ List.Forall₂ files.Holds front added
        ∧ files.Fails path error ∧ Grows templates after added := by
  induction paths generalizing templates with
  | nil => exact .inl ⟨templates, [], rfl, .nil, .refl aligned⟩
  | cons path rest ih =>
    unfold loadFiles
    rcases loadFile_cases files aligned path with
      ⟨middle, template, loaded, holds, grows⟩ | ⟨error, failed, fails⟩
    · rcases ih grows.aligned with
        ⟨after, added, more, all, further⟩
          | ⟨after, added, front, stop, back, error, more, rfl, all, fails, further⟩
      · exact .inl ⟨after, template :: added, by simp [bind, loaded, more], .cons holds all,
          grows.trans further⟩
      · exact .inr ⟨after, template :: added, path :: front, stop, back, error,
          by simp [bind, loaded, more], rfl, .cons holds all, fails, grows.trans further⟩
    · exact .inr ⟨templates, [], [], path, rest, error, by simp [bind, pure, failed], rfl, .nil, fails,
        .refl aligned⟩

/-- Loading a directory adds its templates, up to the first file that holds none. -/
theorem loadDirectory_adds (aligned : templates.Aligned) (path : Text) :
    ∃ after result added, templates.loadDirectory files path = (after, result)
      ∧ files.AddsDirectory path result added ∧ Grows templates after added := by
  cases list : files.entries path with
  | error error =>
    exact ⟨_, _, [], by simp [loadDirectory, bind, pure, list], .unreadable list, .refl aligned⟩
  | ok entries =>
    have order := NamesTemplates.templateNames entries
    by_cases none : templateNames entries = []
    · exact ⟨_, _, [], by simp [loadDirectory, bind, pure, list, none], .empty list (none ▸ order),
        .refl aligned⟩
    · have loads : loadDirectory files templates path
          = templates.loadFiles files ((templateNames entries).map (Path.child path)) := by
        simp [loadDirectory, bind, list, none]
      rcases loadFiles_cases files aligned
          ((templateNames entries).map (Path.child path)) with
        ⟨after, added, loaded, all, grows⟩
          | ⟨after, added, front, stop, back, error, loaded, shape, all, fails, grows⟩
      · exact ⟨after, _, added, loads.trans loaded,
          .whole list order none (List.forall₂_map_left_iff.mp all), grows⟩
      · -- The paths are those of the names, so the names are cut where the paths are.
        obtain ⟨names, tail, cut, rfl, behind⟩ := List.map_eq_append_iff.mp shape
        obtain ⟨name, others, rfl, rfl, -⟩ := List.map_eq_cons_iff.mp behind
        exact ⟨after, _, added, loads.trans loaded, .stopped list (cut ▸ order)
          (List.forall₂_map_left_iff.mp all) fails, grows⟩

/-- A step adds what it may to the end of a collection and changes nothing else. -/
theorem apply_adds (aligned : templates.Aligned) (step : LoadStep) :
    ∃ added, step.Adds files (step.apply files templates).2 added
      ∧ Grows templates (step.apply files templates).1 added := by
  cases step with
  | insert path document => exact ⟨_, ⟨rfl, rfl⟩, grows_insert aligned path document⟩
  | file path =>
    simp only [LoadStep.apply]
    rcases loadFile_cases files aligned path with
      ⟨after, template, loaded, holds, grows⟩ | ⟨error, failed, fails⟩
    · rw [loaded]
      exact ⟨[template], ⟨template, holds, rfl⟩, grows⟩
    · rw [failed]
      exact ⟨[], ⟨fails, rfl⟩, .refl aligned⟩
  | directory path =>
    simp only [LoadStep.apply]
    obtain ⟨after, result, added, loaded, adds, grows⟩ :=
      loadDirectory_adds files aligned path
    rw [loaded]
    exact ⟨added, adds, grows⟩

/-- Through any number of steps each document keeps its path beside it. -/
theorem run_aligned (aligned : templates.Aligned) (steps : List LoadStep) :
    (LoadStep.run files templates steps).Aligned := by
  induction steps generalizing templates with
  | nil => exact aligned
  | cons step rest ih =>
    obtain ⟨added, -, grows⟩ := apply_adds files aligned step
    exact ih grows.aligned

/-- Whatever steps led to a collection, the next one leaves each document with its path beside it and
all templates where they are, and adds behind them what a step of its kind may add: the document that
is inserted, the template that a file holds or nothing when it holds none, the templates of a
directory up to the first file that holds none. -/
theorem run_adds (files : Files Id) (steps : List LoadStep) (step : LoadStep) :
    ∃ added, step.Adds files (step.apply files (LoadStep.run files empty steps)).2 added
      ∧ Grows (LoadStep.run files empty steps)
          (step.apply files (LoadStep.run files empty steps)).1 added :=
  apply_adds files (run_aligned files aligned_empty steps) step

end Templates

end HclSyntax
