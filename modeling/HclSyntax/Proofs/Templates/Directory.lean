import Mathlib
import HclSyntax.Files.Tree
import HclSyntax.Proofs.Templates.Loading

/-!
# `HclSyntax.Proofs.Templates.Directory`: which files of a directory are looked at

A file system lists a directory in an order of its own. `Files.recorded` is a file system that notes
every question it is asked, so that loading on it shows not only what is loaded but also what was
looked at. `Files.LoadsDirectory` says what both should be: the template files are attempted in the
order of their names, up to the first that holds no template, and nothing else is asked about.

* `Templates.loadFiles_asks`: files are read in order, up to the first that holds no template;
* `Templates.loadDirectory_asks`: a directory is asked for its list once, and its template files are
  attempted in the order of their names (`NamesTemplates`);
* `Templates.loadDirectory_anyOrder`: the order of the list makes no difference to any of this.
-/

set_option autoImplicit false

namespace HclSyntax

/-! ### A file system that notes what it is asked -/

/-- A question to a file system. -/
inductive Query where
  | resolve (path : Text)
  | readText (path : Text)
  | entries (path : Text)
deriving DecidableEq, Repr

namespace Files

variable (files : Files Id)

/-- The same file system with a record of what it is asked. -/
def recorded : Files (StateM (List Query)) where
  resolve path := do
    modify (· ++ [.resolve path])
    return files.resolve path
  readText path := do
    modify (· ++ [.readText path])
    return files.readText path
  entries path := do
    modify (· ++ [.entries path])
    return files.entries path

/-- What is asked in an attempt to read a file: where it is, and what it holds if it is somewhere. -/
def attempt (path : Text) : List Query :=
  match files.resolve path with
  | .ok resolved => [.resolve path, .readText resolved]
  | .error _ => [.resolve path]

/-- Files are attempted one after the other, up to the first that holds no template: how that ends,
the templates up to there, and what is asked on the way. -/
inductive ReadsInOrder : List Text → Except LoadError Unit → List Template → List Query → Prop
  | done : ReadsInOrder [] (.ok ()) [] []
  | next {path : Text} {rest : List Text} {template : Template} {result : Except LoadError Unit}
    {added : List Template} {asked : List Query} (holds : files.Holds path template)
    (more : ReadsInOrder rest result added asked) :
    ReadsInOrder (path :: rest) result (template :: added) (files.attempt path ++ asked)
  | stop {path : Text} {rest : List Text} {error : LoadError} (fails : files.Fails path error) :
    ReadsInOrder (path :: rest) (.error error) [] (files.attempt path)

/-- How loading a directory goes: how it ends, the templates it adds, and what it asks. -/
inductive LoadsDirectory (path : Text) :
    Except LoadError Unit → List Template → List Query → Prop
  | unreadable {error : FileError} (list : files.entries path = .error error) :
    LoadsDirectory path (.error (.file error)) [] [.entries path]
  | empty {entries : List Entry} (list : files.entries path = .ok entries)
    (none : NamesTemplates entries []) :
    LoadsDirectory path (.error .noFilesFound) [] [.entries path]
  | loaded {entries : List Entry} {names : List Text} {result : Except LoadError Unit}
    {added : List Template} {asked : List Query} (list : files.entries path = .ok entries)
    (order : NamesTemplates entries names) (some : names ≠ [])
    (reads : files.ReadsInOrder (names.map (Path.child path)) result added asked) :
    LoadsDirectory path result added (.entries path :: asked)

/-- A file that holds no template is no directory without template files. -/
theorem Fails.ne_noFilesFound {files : Files Id} {path : Text} {error : LoadError}
    (h : files.Fails path error) : error ≠ .noFilesFound := by
  cases h <;> exact nofun

/-- Reading files never ends with the error for a directory without templates. -/
theorem ReadsInOrder.ne_noFilesFound {files : Files Id} {paths : List Text}
    {result : Except LoadError Unit} {added : List Template} {asked : List Query}
    (h : files.ReadsInOrder paths result added asked) : result ≠ .error .noFilesFound := by
  induction h with
  | done => exact nofun
  | next _ _ ih => exact ih
  | stop fails => exact fun same => fails.ne_noFilesFound (Except.error.inj same)

/-- A directory is reported to be without template files exactly when it is. -/
theorem LoadsDirectory.noFilesFound_iff {files : Files Id} {path : Text}
    {result : Except LoadError Unit} {added : List Template} {asked : List Query}
    (h : files.LoadsDirectory path result added asked) :
    result = .error .noFilesFound
      ↔ ∃ entries, files.entries path = .ok entries ∧ ∀ entry ∈ entries, ¬ entry.IsTemplateFile := by
  cases h with
  | unreadable list => simp [list]
  | empty list none => exact iff_of_true rfl ⟨_, list, none.eq_nil_iff.mp rfl⟩
  | loaded list order some reads =>
    refine ⟨fun same => absurd same reads.ne_noFilesFound, ?_⟩
    rintro ⟨entries, listed, none⟩
    cases list.symm.trans listed
    exact absurd (order.eq_nil_iff.mpr none) some

/-! ### Lists in another order -/

/-- Two answers about a directory that differ at most in the order of its entries. -/
inductive ListsAlike : Except FileError (List Entry) → Except FileError (List Entry) → Prop
  | listed {entries others : List Entry} (perm : others.Perm entries) :
    ListsAlike (.ok entries) (.ok others)
  | failed (error : FileError) : ListsAlike (.error error) (.error error)

/-- A file system with the same files that may list directories in another order. -/
structure Relists (files relisted : Files Id) : Prop where
  resolve : relisted.resolve = files.resolve
  readText : relisted.readText = files.readText
  entries : ∀ path, ListsAlike (files.entries path) (relisted.entries path)

end Files

/-- A recorded run gives this answer and asks this. -/
def Asks {α : Type} (run : StateM (List Query) α) (answer : α) (queries : List Query) : Prop :=
  ∀ asked, run.run asked = (answer, asked ++ queries)

namespace Asks

variable {α β : Type}

/-- A run that answers at once asks nothing. -/
theorem pure (answer : α) : Asks (pure answer) answer [] :=
  fun asked => congrArg _ (List.append_nil asked).symm

/-- A run that goes on asks what its two parts ask, in order. -/
theorem bind {first : StateM (List Query) α} {next : α → StateM (List Query) β} {middle : α}
    {answer : β} {queries others : List Query} (h : Asks first middle queries)
    (further : Asks (next middle) answer others) :
    Asks (first >>= next) answer (queries ++ others) := by
  intro asked
  rw [StateT.run_bind, h asked, ← List.append_assoc]
  exact further (asked ++ queries)

/-- An answer that is only looked at. -/
theorem answer {first : StateM (List Query) α} {next : α → StateM (List Query) β} {middle : α}
    {answer : β} {queries : List Query} (h : Asks first middle queries)
    (further : Asks (next middle) answer []) : Asks (first >>= next) answer queries := by
  have whole := h.bind further
  rwa [List.append_nil] at whole

end Asks

namespace Templates

/-- A collection with some more templates at its end. -/
def extend (templates : Templates) (added : List Template) : Templates :=
  added.foldl (fun reached template => reached.insert template.path template.document) templates

variable (files : Files Id)

/-! ### Runs with a record -/

/-- Reading a file is one attempt. -/
theorem readFile_asks (path : Text) :
    Asks (readFile files.recorded path) (readFile files path) (files.attempt path) := by
  have resolves : Asks (files.recorded.resolve path) (files.resolve path) [.resolve path] :=
    fun _ => rfl
  unfold readFile Files.attempt
  cases found : files.resolve path with
  | error error =>
    rw [found] at resolves
    exact resolves.answer (.pure _)
  | ok resolved =>
    have reads : Asks (files.recorded.readText resolved) (files.readText resolved)
        [.readText resolved] :=
      fun _ => rfl
    rw [found] at resolves
    -- What is parsed is not asked of the file system.
    refine resolves.bind (reads.answer ?_)
    cases read : files.readText resolved with
    | error error => simpa [bind, pure, read] using Asks.pure _
    | ok text =>
      cases parsed : parse text.normalizeLineEndings with
      | error error => simpa [bind, pure, read, parsed] using Asks.pure _
      | ok document => simpa [bind, pure, read, parsed] using Asks.pure _

/-- Loading a file is one attempt. -/
theorem loadFile_asks (templates : Templates) (path : Text) :
    Asks (loadFile files.recorded templates path) (loadFile files templates path)
      (files.attempt path) := by
  have reads := readFile_asks files path
  unfold loadFile
  cases read : readFile files path with
  | error error =>
    rw [read] at reads
    exact reads.answer (.pure _)
  | ok found =>
    rw [read] at reads
    exact reads.answer (.pure _)

/-- Loading files attempts them in order, up to the first that holds no template. -/
theorem loadFiles_asks (templates : Templates) (paths : List Text) :
    ∃ result added asked, files.ReadsInOrder paths result added asked
      ∧ loadFiles files templates paths = (templates.extend added, result)
      ∧ Asks (loadFiles files.recorded templates paths) (templates.extend added, result) asked := by
  induction paths generalizing templates with
  | nil => exact ⟨.ok (), [], [], .done, rfl, .pure _⟩
  | cons path rest ih =>
    have loads := loadFile_asks files templates path
    unfold loadFiles
    -- The first file that holds no template ends the loading and the questions.
    rcases loadFile_holds_or_fails files templates path with
      ⟨template, holds, loaded⟩ | ⟨error, fails, failed⟩
    · rw [loaded] at loads
      obtain ⟨result, added, asked, reads, run, asks⟩ :=
        ih (templates.insert template.path template.document)
      refine ⟨result, template :: added, files.attempt path ++ asked, .next holds reads, ?_,
        loads.bind asks⟩
      simpa [bind, loaded, extend] using run
    · rw [failed] at loads
      exact ⟨.error error, [], files.attempt path, .stop fails, by simp [bind, pure, failed, extend],
        loads.answer (.pure _)⟩

/-- Loading a directory asks for its list, and attempts its template files in order. -/
theorem loadDirectory_asks (templates : Templates) (path : Text) :
    ∃ result added asked, files.LoadsDirectory path result added asked
      ∧ loadDirectory files templates path = (templates.extend added, result)
      ∧ Asks (loadDirectory files.recorded templates path) (templates.extend added, result) asked := by
  have lists : Asks (files.recorded.entries path) (files.entries path) [.entries path] :=
    fun _ => rfl
  unfold loadDirectory
  cases list : files.entries path with
  | error error =>
    rw [list] at lists
    exact ⟨_, [], _, .unreadable list, rfl, lists.answer (.pure _)⟩
  | ok entries =>
    rw [list] at lists
    have order := NamesTemplates.templateNames entries
    -- No files are read where none is named.
    by_cases none : templateNames entries = []
    · rw [none] at order
      refine ⟨_, [], _, .empty list order, by simp [bind, pure, none, extend], lists.answer ?_⟩
      simpa [none, extend] using Asks.pure _
    · obtain ⟨result, added, asked, reads, run, asks⟩ :=
        loadFiles_asks files templates ((templateNames entries).map (Path.child path))
      refine ⟨result, added, .entries path :: asked, .loaded list order none reads,
        by simpa [bind, none] using run, lists.bind ?_⟩
      simpa [none] using asks

/-! ### Lists in another order -/

section Relists

variable {m : Type → Type} [Monad m] {first second : Files m}

/-- Loading files asks only where they are and what they hold. -/
theorem loadFiles_congr (resolve : second.resolve = first.resolve)
    (readText : second.readText = first.readText) (templates : Templates) (paths : List Text) :
    loadFiles second templates paths = loadFiles first templates paths := by
  have reads (path : Text) : readFile second path = readFile first path := by
    simp only [readFile, resolve, readText]
  induction paths generalizing templates with
  | nil => rfl
  | cons path rest ih => simp only [loadFiles, loadFile, reads, ih]

/-- What loading a directory does with its list. -/
def loadListed (files : Files m) (templates : Templates) (path : Text) :
    Except FileError (List Entry) → m (Templates × Except LoadError Unit)
  | .error error => return (templates, .error (.file error))
  | .ok entries =>
    if (templateNames entries).isEmpty then return (templates, .error .noFilesFound)
    else loadFiles files templates ((templateNames entries).map (Path.child path))

/-- A directory is loaded by listing it and loading what is listed. -/
theorem loadDirectory_eq (files : Files m) (templates : Templates) (path : Text) :
    loadDirectory files templates path = files.entries path >>= loadListed files templates path := by
  unfold loadDirectory
  congr 1

/-- The order of the list makes no difference to what is done with it. -/
theorem loadListed_congr (resolve : second.resolve = first.resolve)
    (readText : second.readText = first.readText) {list relisted : Except FileError (List Entry)}
    (alike : Files.ListsAlike list relisted) (templates : Templates) (path : Text) :
    loadListed second templates path relisted = loadListed first templates path list := by
  cases alike with
  | failed error => rfl
  | @listed entries others perm =>
    have names : templateNames others = templateNames entries :=
      (NamesTemplates.templateNames entries).unique (.templateNames others) perm
    simp only [loadListed, names, loadFiles_congr resolve readText]

end Relists

/-- A file system that lists directories in another order is asked the same, and the answers are
taken in the same way. -/
theorem loadDirectory_recorded_eq {files relisted : Files Id} (relists : files.Relists relisted)
    (templates : Templates) (path : Text) :
    loadDirectory relisted.recorded templates path
      = loadDirectory files.recorded templates path := by
  have resolve : relisted.recorded.resolve = files.recorded.resolve := by
    simp only [Files.recorded, relists.resolve]
  have readText : relisted.recorded.readText = files.recorded.readText := by
    simp only [Files.recorded, relists.readText]
  rw [loadDirectory_eq, loadDirectory_eq]
  funext asked
  exact congrFun (loadListed_congr resolve readText (relists.entries path) templates path)
    (asked ++ [.entries path])

/-- Loading a directory does not depend on the order in which the file system lists it: it ends in
the same way with the same collection, and asks the same in the same order. It asks for the list,
attempts the template files among its entries in the order of their names up to the first that holds
no template, and asks nothing else. It reports that there is no template file exactly when there is
none. -/
theorem loadDirectory_anyOrder {files relisted : Files Id} (relists : files.Relists relisted)
    (templates : Templates) (path : Text) :
    loadDirectory relisted templates path = loadDirectory files templates path
      ∧ loadDirectory relisted.recorded templates path = loadDirectory files.recorded templates path
      ∧ ∃ result added asked, files.LoadsDirectory path result added asked
        ∧ loadDirectory files templates path = (templates.extend added, result)
        ∧ Asks (loadDirectory files.recorded templates path) (templates.extend added, result) asked
        ∧ (result = .error .noFilesFound ↔ ∃ entries, files.entries path = .ok entries
          ∧ ∀ entry ∈ entries, ¬ entry.IsTemplateFile) := by
  have same := loadDirectory_recorded_eq relists templates path
  obtain ⟨result, added, asked, loads, run, asks⟩ := loadDirectory_asks files templates path
  obtain ⟨_, _, _, -, rerun, reasks⟩ := loadDirectory_asks relisted templates path
  -- The record shows how a run ends, so runs with the same record end in the same way.
  have ends := (reasks []).symm.trans ((congrArg (·.run []) same).trans (asks []))
  refine ⟨?_, same, result, added, asked, loads, run, asks, loads.noFilesFound_iff⟩
  rw [run, rerun]
  exact congrArg Prod.fst ends

/-- A directory of two template files, a directory with the name of one, and a file without extension,
listed in two orders. The two files are attempted at their paths in the directory, in the order of
their names. -/
theorem loadDirectory_anyOrder_backwards :
    let held : FileTree := .directory [("b.tf".toList, .file "b = 2".toUTF8),
      ("c.tf".toList, .directory []), (".tf".toList, .file "c = 3".toUTF8),
      ("a.hcl".toList, .file "a = 1".toUTF8)]
    let files : Files Id := (FileTree.directory [("d".toList, held)]).files
    let relisted : Files Id :=
      { files with entries := fun path => (files.entries path).map List.reverse }
    files.Relists relisted
      ∧ loadDirectory relisted empty "/d".toList = loadDirectory files empty "/d".toList
      ∧ loadDirectory relisted.recorded empty "/d".toList
        = loadDirectory files.recorded empty "/d".toList
      ∧ (loadDirectory files empty "/d".toList).2 ≠ .error .noFilesFound
      ∧ Asks (loadDirectory files.recorded empty "/d".toList) (loadDirectory files empty "/d".toList)
        [.entries "/d".toList, .resolve "/d/a.hcl".toList, .readText "/d/a.hcl".toList,
          .resolve "/d/b.tf".toList, .readText "/d/b.tf".toList] := by
  intro held files relisted
  have relists : files.Relists relisted := by
    refine ⟨rfl, rfl, fun path => ?_⟩
    show Files.ListsAlike (files.entries path) ((files.entries path).map List.reverse)
    cases files.entries path with
    | error error => exact .failed error
    | ok entries => exact .listed (List.reverse_perm entries)
  obtain ⟨same, recorded, result, added, asked, -, run, asks, noFiles⟩ :=
    loadDirectory_anyOrder relists empty "/d".toList
  have record : (Id.run ((loadDirectory files.recorded empty "/d".toList).run [])).2
      = [.entries "/d".toList, .resolve "/d/a.hcl".toList, .readText "/d/a.hcl".toList,
        .resolve "/d/b.tf".toList, .readText "/d/b.tf".toList] := by cbv
  -- Any other list of questions would have left another record.
  obtain rfl : asked = _ := (congrArg Prod.snd (asks [])).symm.trans record
  refine ⟨relists, same, recorded, ?_, run ▸ asks⟩
  rw [run]
  intro none
  obtain ⟨entries, listed, noTemplate⟩ := noFiles.mp none
  have held : files.entries "/d".toList = .ok [⟨"b.tf".toList, true⟩, ⟨"c.tf".toList, false⟩,
    ⟨".tf".toList, true⟩, ⟨"a.hcl".toList, true⟩] := by rfl
  obtain rfl := Except.ok.inj (held.symm.trans listed)
  exact noTemplate ⟨"b.tf".toList, true⟩ (by simp)
    ⟨rfl, ['b'], "tf".toList, by decide, rfl, by decide⟩

end Templates

end HclSyntax
