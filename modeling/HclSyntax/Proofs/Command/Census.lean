import Mathlib
import HclSyntax.Command.Run
import HclSyntax.Files.Tree
import HclSyntax.Proofs.Node.Census
import HclSyntax.Proofs.Templates.Loading

/-!
# `HclSyntax.Proofs.Command.Census`: the counts and the trees of the same templates

One command reports how many nodes of each kind the templates have (`Templates.stats`), another one
lists their trees (`Templates.trees`). Both collect fields, one by kinds and the other by names, and a
field that is put again replaces the one before.

* `Templates.reported_stats`: nothing is lost in the counts, where the new count is made from the old
  one;
* `Templates.reported_eq_nodesOf_iff`: in the trees nothing is lost exactly if all names differ, as a
  tree that is replaced has a root;
* `Inputs.load_cases`: what is loaded from files has their paths, so names differ when paths do.

`Invocation.stats_matches_tree_iff` puts them together: the two commands agree on the same inputs if
these give no file twice, and not otherwise (`Invocation.not_stats_matches_tree_twice`).
-/

set_option autoImplicit false

namespace HclSyntax

open Data

namespace Templates

variable {α : Type} {kind : Kind}

/-! ### Fields -/

/-- Looking up a name takes the first field if it has that name. -/
theorem lookup_cons_eq_ite (name key : Text) (value : α) (rest : List (Text × α)) :
    ((key, value) :: rest).lookup name = if name = key then some value else rest.lookup name := by
  rw [List.lookup_cons]
  by_cases same : name = key
  · rw [if_pos same, beq_iff_eq.mpr same]
  · rw [if_neg same, beq_eq_false_iff_ne.mpr same]

/-- Putting a field changes this field and no other. -/
theorem lookup_putField (key name : Text) (value : α) (fields : List (Text × α)) :
    (putField key value fields).lookup name
      = if name = key then some value else fields.lookup name := by
  induction fields with
  | nil => exact lookup_cons_eq_ite ..
  | cons field rest ih =>
    obtain ⟨other, old⟩ := field
    rw [putField, lookup_cons_eq_ite]
    split
    · next here =>
      rw [lookup_cons_eq_ite, here]
      split <;> rfl
    · next here =>
      rw [lookup_cons_eq_ite, ih]
      split
      · next same => rw [if_neg fun key => here (same.symm.trans key)]
      · rfl

/-- The nodes in some fields after putting one, and those of the value it replaces, are the nodes in
the fields before and those of the new value. -/
theorem nodesOfFields_putField (key : Text) (value : Data) (fields : List (Text × Data)) :
    nodesOfFields kind (putField key value fields)
        + ((fields.lookup key).map (nodesOf kind)).getD 0
      = nodesOfFields kind fields + nodesOf kind value := by
  induction fields with
  | nil => simp [putField, nodesOfFields]
  | cons field rest ih =>
    obtain ⟨other, old⟩ := field
    rw [putField, lookup_cons_eq_ite]
    -- The old value is taken out where the new one is put in.
    by_cases here : other = key
    · rw [if_pos here, if_pos here.symm, nodesOfFields, nodesOfFields, Option.map_some,
        Option.getD_some]
      omega
    · rw [if_neg here, if_neg (Ne.symm here), nodesOfFields, nodesOfFields]
      omega

/-! ### Counts -/

/-- Looking up a name among changed values gives the value changed. -/
theorem lookup_map_snd {β : Type} (f : α → β) (key : Text) (fields : List (Text × α)) :
    (fields.map fun field => (field.1, f field.2)).lookup key = (fields.lookup key).map f := by
  induction fields with
  | nil => rfl
  | cons field rest ih =>
    rw [List.map_cons, lookup_cons_eq_ite, lookup_cons_eq_ite, ih]
    split <;> rfl

/-- Counting a kind adds one to its count and leaves the others. -/
theorem lookup_countKind (counts : List (Text × Nat)) (other : Kind) :
    ((countKind counts other).lookup kind.word).getD 0
      = (counts.lookup kind.word).getD 0 + [other].count kind := by
  rw [countKind, lookup_putField, List.count_singleton]
  by_cases same : kind = other
  · simp [same]
  · have words : kind.word ≠ other.word := fun words => same (Kind.word_injective words)
    simp [words, Ne.symm same]

/-- The count of a kind grows by the number of times it comes up. -/
theorem lookup_foldl_countKind (counts : List (Text × Nat)) (kinds : List Kind) :
    ((kinds.foldl countKind counts).lookup kind.word).getD 0
      = (counts.lookup kind.word).getD 0 + kinds.count kind := by
  induction kinds generalizing counts with
  | nil => rfl
  | cons other rest ih =>
    rw [List.foldl_cons, ih, lookup_countKind, Nat.add_assoc, ← List.count_append,
      List.singleton_append]

end Templates

/-- The number that is reported for a kind, which is zero without a field for it. -/
def Data.reported (data : Data) (kind : Kind) : Nat :=
  match data.field? kind.word with
  | some (.number n) => n
  | _ => 0

namespace Templates

variable {kind : Kind}

/-- The number that is reported for a kind is the number of nodes of this kind in all templates. -/
theorem reported_stats (templates : Templates) :
    templates.stats.reported kind = templates.kinds.count kind := by
  have counted := @lookup_foldl_countKind kind [] templates.kinds
  have field : templates.stats.field? kind.word
      = ((templates.kinds.foldl countKind []).lookup kind.word).map .number :=
    lookup_map_snd ..
  rw [reported, field]
  revert counted
  cases (templates.kinds.foldl countKind []).lookup kind.word <;> simp

end Templates

/-! ### Trees -/

/-- The kinds of the nodes of a template. -/
def Template.kinds (template : Template) : List Kind :=
  template.document.root.visits.map fun visit => visit.2.kind

namespace Templates

variable {kind : Kind} {fields : List (Text × Data)}

/-- The fields with the tree of one more template under its name. -/
def putTree (fields : List (Text × Data)) (template : Template) : List (Text × Data) :=
  putField template.name template.document.root.listing fields

/-- The trees after one more template hold its nodes, and no longer those it replaces. -/
theorem nodesOfFields_putTree (kind : Kind) (fields : List (Text × Data)) (template : Template) :
    nodesOfFields kind (putTree fields template)
        + ((fields.lookup template.name).map (nodesOf kind)).getD 0
      = nodesOfFields kind fields + template.kinds.count kind := by
  rw [putTree, nodesOfFields_putField, Node.nodesOf_listing]
  rfl

/-- The trees of some templates have no more nodes of a kind than the templates. -/
theorem nodesOfFields_foldl_putTree_le (kind : Kind) (fields : List (Text × Data))
    (items : List Template) :
    nodesOfFields kind (items.foldl putTree fields)
      ≤ nodesOfFields kind fields + (items.flatMap Template.kinds).count kind := by
  induction items generalizing fields with
  | nil => simp
  | cons template rest ih =>
    have step := nodesOfFields_putTree kind fields template
    have run := ih (putTree fields template)
    rw [List.foldl_cons, List.flatMap_cons, List.count_append]
    omega

/-- No two of the templates have the same name, and there is no field with one of their names. -/
structure Fresh (fields : List (Text × Data)) (items : List Template) : Prop where
  names : (items.map Template.name).Nodup
  new : ∀ template ∈ items, fields.lookup template.name = none

/-- Nothing needs to be said of no templates. -/
theorem fresh_nil : Fresh fields [] :=
  ⟨List.nodup_nil, nofun⟩

/-- Templates have new names if the first has, and the others have once its tree is put there. -/
theorem fresh_cons_iff {template : Template} {rest : List Template} :
    Fresh fields (template :: rest)
      ↔ fields.lookup template.name = none ∧ Fresh (putTree fields template) rest := by
  -- A name is new behind the template if it was new before and is not its own.
  have look (other : Template) : (putTree fields template).lookup other.name = none
      ↔ other.name ≠ template.name ∧ fields.lookup other.name = none := by
    rw [putTree, lookup_putField]
    by_cases same : other.name = template.name <;> simp [same]
  constructor
  · rintro ⟨names, new⟩
    obtain ⟨apart, names⟩ := List.nodup_cons.mp names
    refine ⟨new _ List.mem_cons_self, names, fun other behind => (look other).mpr ⟨?_, ?_⟩⟩
    · exact fun same => apart (same ▸ List.mem_map_of_mem behind)
    · exact new other (List.mem_cons_of_mem _ behind)
  · rintro ⟨here, names, new⟩
    refine ⟨List.nodup_cons.mpr ⟨fun behind => ?_, names⟩, List.forall_mem_cons.mpr
      ⟨here, fun other behind => ((look other).mp (new other behind)).2⟩⟩
    obtain ⟨other, behind, same⟩ := List.mem_map.mp behind
    exact ((look other).mp (new other behind)).1 same

/-- Templates with new names keep all their nodes in the trees. -/
theorem Fresh.nodesOfFields_foldl_putTree {items : List Template} (fresh : Fresh fields items) :
    nodesOfFields kind (items.foldl putTree fields)
      = nodesOfFields kind fields + (items.flatMap Template.kinds).count kind := by
  induction items generalizing fields with
  | nil => rfl
  | cons template rest ih =>
    obtain ⟨new, fresh⟩ := fresh_cons_iff.mp fresh
    have step := nodesOfFields_putTree kind fields template
    rw [new] at step
    rw [List.foldl_cons, ih fresh, List.flatMap_cons, List.count_append, ← Nat.add_assoc, ← step]
    rfl

/-- Each field holds the tree of a document. -/
def HoldTrees (fields : List (Text × Data)) : Prop :=
  ∀ name tree, fields.lookup name = some tree → ∃ document : Document, tree = document.root.listing

/-- No fields hold trees only. -/
theorem holdTrees_nil : HoldTrees [] :=
  nofun

/-- One more template puts a tree there. -/
theorem HoldTrees.putTree (trees : HoldTrees fields) (template : Template) :
    HoldTrees (putTree fields template) := by
  intro name tree found
  rw [Templates.putTree, lookup_putField] at found
  split at found
  · exact ⟨template.document, (Option.some.inj found).symm⟩
  · exact trees name tree found

/-- So do any number of templates. -/
theorem HoldTrees.foldl_putTree (trees : HoldTrees fields) (items : List Template) :
    HoldTrees (items.foldl Templates.putTree fields) := by
  induction items generalizing fields with
  | nil => exact trees
  | cons template rest ih => exact ih (trees.putTree template)

/-- Every document has a root. -/
theorem nodesOf_root_pos (document : Document) : 0 < document.root.listing.nodesOf .root := by
  rw [Node.nodesOf_listing]
  exact List.count_pos_iff.mpr List.mem_cons_self

/-- If no root is missing in the trees, the templates have new names. -/
theorem HoldTrees.fresh {items : List Template} (trees : HoldTrees fields)
    (all : nodesOfFields .root (items.foldl Templates.putTree fields)
      = nodesOfFields .root fields + (items.flatMap Template.kinds).count .root) :
    Fresh fields items := by
  induction items generalizing fields with
  | nil => exact fresh_nil
  | cons template rest ih =>
    have step := nodesOfFields_putTree .root fields template
    have run := nodesOfFields_foldl_putTree_le .root (Templates.putTree fields template) rest
    rw [List.foldl_cons, List.flatMap_cons, List.count_append] at all
    cases replaced : fields.lookup template.name with
    | some tree =>
      obtain ⟨document, rfl⟩ := trees _ _ replaced
      -- A tree that is replaced has a root, and that would be missing in the count.
      have root := nodesOf_root_pos document
      rw [replaced, Option.map_some, Option.getD_some] at step
      omega
    | none =>
      rw [replaced, Option.map_none, Option.getD_none] at step
      exact fresh_cons_iff.mpr ⟨replaced, ih (trees.putTree template) (by omega)⟩

/-- What is written for the trees has the nodes of its fields. -/
theorem nodesOf_trees (templates : Templates) :
    templates.trees.nodesOf kind = nodesOfFields kind (templates.items.foldl putTree []) := by
  have noWord : templates.trees.kindWord? ≠ some kind.word := by
    intro word
    obtain ⟨document, same⟩ := holdTrees_nil.foldl_putTree templates.items _ _
      (kindWord?_eq_some_iff.mp word)
    cases same
  show (if templates.trees.kindWord? = some kind.word then 1 else 0) + nodesOfFields kind _ = _
  rw [if_neg noWord, Nat.zero_add]
  rfl

/-- The trees never have more nodes of a kind than are reported. -/
theorem nodesOf_trees_le (templates : Templates) (kind : Kind) :
    templates.trees.nodesOf kind ≤ templates.stats.reported kind := by
  have most := nodesOfFields_foldl_putTree_le kind [] templates.items
  rw [nodesOfFields, Nat.zero_add] at most
  rw [nodesOf_trees, reported_stats]
  exact most

/-- The trees have the nodes that are reported exactly when no two templates have the same name. -/
theorem reported_eq_nodesOf_iff (templates : Templates) :
    (∀ kind, templates.stats.reported kind = templates.trees.nodesOf kind)
      ↔ (templates.items.map Template.name).Nodup := by
  have reported (kind : Kind) : templates.stats.reported kind
      = nodesOfFields kind [] + (templates.items.flatMap Template.kinds).count kind := by
    rw [reported_stats, nodesOfFields, Nat.zero_add]
    rfl
  constructor
  · intro agree
    refine (holdTrees_nil.fresh ?_).names
    rw [← reported, ← nodesOf_trees, agree]
  · intro names kind
    have fresh : Fresh [] templates.items := ⟨names, fun _ _ => rfl⟩
    rw [nodesOf_trees, reported, fresh.nodesOfFields_foldl_putTree]

end Templates

/-! ### Loading -/

namespace Files

variable {files : Files Id}

/-- The templates of some paths are held by files. -/
theorem held_of_forall₂ {α : Type} {pathOf : α → Text} {names : List α} {added : List Template}
    (holds : List.Forall₂ (fun name => files.Holds (pathOf name)) names added) :
    ∀ template ∈ added, ∃ path, files.Holds path template := by
  induction holds with
  | nil => exact nofun
  | cons here _ ih => exact List.forall_mem_cons.mpr ⟨⟨_, here⟩, ih⟩

/-- The templates of a directory are held by files. -/
theorem AddsDirectory.held {path : Text} {result : Except LoadError Unit} {added : List Template}
    (adds : files.AddsDirectory path result added) :
    ∀ template ∈ added, ∃ path, files.Holds path template := by
  cases adds with
  | unreadable _ => exact nofun
  | empty _ _ => exact nofun
  | stopped _ _ holds _ => exact held_of_forall₂ holds
  | whole _ _ _ holds => exact held_of_forall₂ holds

end Files

namespace Templates

/-- Each template has its path beside it and is held by a file. -/
structure FromFiles (files : Files Id) (templates : Templates) : Prop where
  aligned : templates.Aligned
  held : ∀ template ∈ templates.items, ∃ path, files.Holds path template

variable {files : Files Id} {templates : Templates}

/-- An empty collection needs no files. -/
theorem fromFiles_empty (files : Files Id) : FromFiles files empty :=
  ⟨aligned_empty, nofun⟩

/-- A collection that grows by templates of files is still from files. -/
theorem FromFiles.grows {after : Templates} {added : List Template}
    (loaded : FromFiles files templates) (grows : Grows templates after added)
    (held : ∀ template ∈ added, ∃ path, files.Holds path template) : FromFiles files after where
  aligned := grows.aligned
  held := by
    rw [grows.items]
    exact List.forall_mem_append.mpr ⟨loaded.held, held⟩

/-- Loading files adds templates of these files. -/
theorem FromFiles.loadFiles (loaded : FromFiles files templates) (paths : List Text) :
    FromFiles files (Id.run (loadFiles files templates paths)).1 := by
  rcases loadFiles_cases files loaded.aligned paths with
    ⟨after, added, run, holds, grows⟩ | ⟨after, added, _, _, _, _, run, -, holds, -, grows⟩
  all_goals
    rw [run]
    exact loaded.grows grows (Files.held_of_forall₂ holds)

/-- Loading a directory adds templates of the files in it. -/
theorem FromFiles.loadDirectory (loaded : FromFiles files templates) (path : Text) :
    FromFiles files (Id.run (loadDirectory files templates path)).1 := by
  obtain ⟨after, result, added, run, adds, grows⟩ := loadDirectory_adds files loaded.aligned path
  rw [run]
  exact loaded.grows grows adds.held

/-- Loading directories adds templates of the files in them. -/
theorem FromFiles.loadDirectories (loaded : FromFiles files templates) (paths : List Text) :
    FromFiles files (Id.run (loadDirectories files templates paths)).1 := by
  induction paths generalizing templates with
  | nil => exact loaded
  | cons path rest ih =>
    have step := loaded.loadDirectory path
    unfold Templates.loadDirectories
    rw [Id.run_bind]
    split
    · next added run =>
      rw [run] at step
      exact ih step
    · exact step

/-- The paths kept with the templates are the sources, in the same order. -/
theorem Aligned.map_path_items (aligned : templates.Aligned) :
    templates.items.map Template.path = templates.sources := by
  rw [items, ← List.map_uncurry_zip_eq_zipWith, List.map_map]
  exact List.map_fst_zip (Nat.le_of_eq aligned)

/-- Templates of files have different names when they have different paths. -/
theorem FromFiles.nodup_names_iff (loaded : FromFiles files templates) :
    (templates.items.map Template.name).Nodup ↔ templates.sources.Nodup := by
  have names : templates.items.map Template.name
      = templates.sources.map fun source => source.getD "<stdin>".toList := by
    rw [← loaded.aligned.map_path_items, List.map_map]
    rfl
  -- Only standard input has no path, so a name tells the path.
  have ofFile : ∀ source ∈ templates.sources, ∃ path, source = some path := by
    rw [← loaded.aligned.map_path_items]
    intro source found
    obtain ⟨template, member, rfl⟩ := List.mem_map.mp found
    obtain ⟨_, resolved, _, -, -, path, -⟩ := loaded.held template member
    exact ⟨resolved, path⟩
  rw [names]
  refine ⟨List.Nodup.of_map _, List.Nodup.map_on fun source here other there same => ?_⟩
  obtain ⟨path, rfl⟩ := ofFile source here
  obtain ⟨path', rfl⟩ := ofFile other there
  exact congrArg some same

end Templates

/-- What is loaded is standard input or comes from files. -/
theorem Inputs.load_cases {files : Files Id} {input : Except FileError Text} {workdir : Text}
    {inputs : Inputs} {templates : Templates}
    (loads : Id.run (inputs.load files input workdir) = .ok templates) :
    (∃ document, templates = .ofDocument document) ∨ templates.FromFiles files := by
  unfold Inputs.load at loads
  split at loads
  · refine .inl ?_
    unfold readInput at loads
    simp only [Id.run_bind] at loads
    split at loads
    · cases loads
    · split at loads
      · cases loads
      · next document _ => exact ⟨document, (Except.ok.inj loads).symm⟩
  · refine .inr ?_
    dsimp only at loads
    -- What is loaded stays from files in each of the three steps, the last of which must succeed.
    have ofWorkdir := (Templates.fromFiles_empty files).loadDirectories
      (if inputs.workdir then [workdir] else [])
    rw [Id.run_bind] at loads
    split at loads
    · cases loads
    · next own run =>
      rw [run] at ofWorkdir
      have withFiles := ofWorkdir.loadFiles (inputs.files.map (Path.within workdir))
      rw [Id.run_bind] at loads
      split at loads
      · cases loads
      · next named run =>
        rw [run] at withFiles
        have all := withFiles.loadDirectories (inputs.directories.map (Path.within workdir))
        rw [Id.run_bind] at loads
        split at loads
        · cases loads
        · next found run =>
          rw [run] at all
          split at loads
          · cases loads
          · cases loads
            exact all

namespace Invocation

/-- On inputs that load, one command writes the counts and the other one the trees of the templates.
The counts are those of the nodes in all templates. The trees never have more nodes of a kind than are
counted, and they have as many of every kind exactly if no file was loaded twice. -/
theorem stats_matches_tree_iff {files : Files Id} {input : Except FileError Text}
    {workdir place : Text} {directories : List Text} {inputs : Inputs} {templates : Templates}
    (changes : Id.run (changeDirectory files workdir directories) = .ok place)
    (loads : Id.run (inputs.load files input place) = .ok templates) (form other : OutputFormat) :
    Id.run ((Invocation.mk directories (.stats inputs form)).run files input workdir)
        = ⟨0, form.write templates.stats, []⟩
      ∧ Id.run ((Invocation.mk directories (.tree inputs other)).run files input workdir)
        = ⟨0, other.write templates.trees, []⟩
      ∧ (∀ kind, templates.stats.reported kind = templates.kinds.count kind)
      ∧ (∀ kind, templates.trees.nodesOf kind ≤ templates.stats.reported kind)
      ∧ ((∀ kind, templates.stats.reported kind = templates.trees.nodesOf kind)
        ↔ templates.sources.Nodup) := by
  refine ⟨?_, ?_, fun _ => templates.reported_stats, templates.nodesOf_trees_le, ?_⟩
  · simp only [Invocation.run, Id.run_bind, changes, Command.inputs, loads]
    rfl
  · simp only [Invocation.run, Id.run_bind, changes, Command.inputs, loads]
    rfl
  · rw [templates.reported_eq_nodesOf_iff]
    rcases Inputs.load_cases loads with ⟨document, rfl⟩ | ofFiles
    · exact iff_of_true (List.nodup_singleton _) (List.nodup_singleton _)
    · exact ofFiles.nodup_names_iff

/-- Two files with the same text under the same name, one in the work directory and one in a
directory there. -/
theorem stats_matches_tree_sameText :
    let root : FileTree := .directory [("a.tf".toList, .file "x = 1".toUTF8),
      ("d".toList, .directory [("a.tf".toList, .file "x = 1".toUTF8)])]
    let inputs : Inputs := ⟨true, [], ["d".toList]⟩
    ∃ templates, Id.run (inputs.load root.files (Except.ok [] : Except FileError Text) "/".toList)
        = .ok templates
      ∧ Id.run ((Invocation.mk ["d".toList, "..".toList] (.stats inputs .json)).run root.files
          (Except.ok [] : Except FileError Text) "/".toList) = ⟨0, templates.stats.toJson, []⟩
      ∧ ∀ kind, templates.stats.reported kind = templates.trees.nodesOf kind := by
  intro root inputs
  let document : Document := ⟨[.property .string (.bare ['x']) (.numberOrBool ['1'])]⟩
  have changes : Id.run (changeDirectory root.files "/".toList ["d".toList, "..".toList])
      = .ok "/".toList := by cbv
  have loads : Id.run (inputs.load root.files (Except.ok [] : Except FileError Text) "/".toList)
      = .ok ⟨[some "/a.tf".toList, some "/d/a.tf".toList], [document, document]⟩ := by cbv
  obtain ⟨stats, -, -, -, agree⟩ := stats_matches_tree_iff changes loads .json .json
  exact ⟨_, loads, stats, agree.mpr (by decide)⟩

/-- The nodes of a file that is given twice are counted twice, and its tree is listed once. -/
theorem not_stats_matches_tree_twice :
    let root : FileTree := .directory [("a.tf".toList, .file "x = 1".toUTF8)]
    let inputs : Inputs := ⟨false, ["a.tf".toList, "a.tf".toList], []⟩
    ∃ templates, Id.run (inputs.load root.files (Except.ok [] : Except FileError Text) "/".toList)
        = .ok templates
      ∧ templates.stats.reported .root = 2 ∧ templates.trees.nodesOf .root = 1 := by
  intro root inputs
  let document : Document := ⟨[.property .string (.bare ['x']) (.numberOrBool ['1'])]⟩
  have loads : Id.run (inputs.load root.files (Except.ok [] : Except FileError Text) "/".toList)
      = .ok ⟨[some "/a.tf".toList, some "/a.tf".toList], [document, document]⟩ := by cbv
  refine ⟨_, loads, ?_, ?_⟩
  · rw [Templates.reported_stats]
    decide
  · rw [Templates.nodesOf_trees]
    decide

end Invocation

end HclSyntax
