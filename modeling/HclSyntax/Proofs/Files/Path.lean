import HclSyntax.Files.Tree
import HclSyntax.Proofs.Rule.Outcome

/-!
# `HclSyntax.Proofs.Files.Path`: paths of what a directory holds

`Path.child` makes the path of a directory entry out of the path of the directory and the name of the
entry. What it has to do is best said by a file system: the path leads to the entry. In a tree a path
is followed name by name, so `FileTree.walk_child` says this for the names. Behind the names of the
directory come those of the entry, whether or not the path of the directory ends with a slash. From
this `FileTree.at?_child` follows: at the path of an entry stands what the directory has under its
name.

`Path.extension?_eq_some_iff` is the specification of the extension of a name.
-/

set_option autoImplicit false

namespace HclSyntax

/-! ### The names on a path -/

namespace Path

/-- There is always a name on a path, though it may be empty. -/
theorem names_ne_nil (path : Text) : names path ≠ [] := by
  cases path with
  | nil => simp [names]
  | cons c rest =>
    unfold names
    split
    · simp
    · split <;> simp

/-- At a slash the names on a path are cut in two. -/
theorem names_append_slash (front back : Text) :
    names (front ++ '/' :: back) = names front ++ names back := by
  induction front with
  | nil => simp [names]
  | cons c front ih =>
    rw [List.cons_append, names, names, ih]
    split
    · rfl
    · obtain ⟨name, others, split⟩ := List.exists_cons_of_ne_nil (names_ne_nil front)
      rw [split]
      rfl

/-- A name without a slash is the only one on its path. -/
theorem names_of_notMem {name : Text} (single : '/' ∉ name) : names name = [name] := by
  induction name with
  | nil => rfl
  | cons c rest ih =>
    have notSlash : c ≠ '/' := fun same => single (by simp [same])
    rw [names, if_neg notSlash, ih fun mem => single (List.mem_cons_of_mem _ mem)]

/-- The extension of a name is what follows its last point, unless nothing stands before that. -/
theorem extension?_eq_some_iff {name extension : Text} :
    extension? name = some extension
      ↔ ∃ stem, stem ≠ [] ∧ name = stem ++ '.' :: extension ∧ '.' ∉ extension := by
  constructor
  · intro found
    simp only [extension?] at found
    split at found
    · cases found
    next some =>
    obtain rfl := Option.some.inj found
    -- Backwards, the name is its extension, the point, and the stem.
    have split := @List.takeWhile_append_dropWhile _ (fun c => decide (c ≠ '.')) name.reverse
    have point := Text.stops_dropWhile (fun c => decide (c ≠ '.')) name.reverse
    generalize name.reverse.dropWhile (fun c => decide (c ≠ '.')) = behind at some split point
    cases behind with
    | nil => exact absurd rfl some
    | cons c stem =>
      obtain rfl : c = '.' := by simpa using point
      refine ⟨stem.reverse, by simpa using some, ?_, fun inside => ?_⟩
      · simpa using (congrArg List.reverse split).symm
      · have apart := List.mem_takeWhile_imp (List.mem_reverse.mp inside)
        simp at apart
  · rintro ⟨stem, nonempty, rfl, single⟩
    have all : ∀ c ∈ extension.reverse, decide (c ≠ '.') = true := by
      intro c hc
      exact decide_eq_true fun same => single (same ▸ List.mem_reverse.mp hc)
    have stops : Text.Stops (fun c => decide (c ≠ '.')) ('.' :: stem.reverse) := by simp
    have backwards :
        (stem ++ '.' :: extension).reverse = extension.reverse ++ '.' :: stem.reverse := by
      simp
    simp only [extension?, backwards, Text.dropWhile_append_of_stops all stops,
      Text.takeWhile_append_of_stops all stops]
    simp [nonempty]

end Path

/-! ### Following a path -/

namespace FileTree

variable {root : FileTree}

/-- Following some names is one step and then following the others from there. -/
theorem walk_cons (here : List Text) (name : Text) (rest : List Text) :
    root.walk here (name :: rest) = root.walk here [name] >>= fun there => root.walk there rest := by
  rw [walk, walk]
  cases root.find? here.reverse with
  | none => rfl
  | some found =>
    cases found with
    | file bytes => rfl
    | directory entries =>
      dsimp only
      split_ifs <;> rfl

/-- Names are followed one part after the other. -/
theorem walk_append (here front back : List Text) :
    root.walk here (front ++ back)
      = root.walk here front >>= fun there => root.walk there back := by
  induction front generalizing here with
  | nil => rfl
  | cons name front ih =>
    rw [List.cons_append, walk_cons, walk_cons here name front, bind_assoc]
    exact bind_congr fun there => ih there

/-- An empty name in front of others stays in the directory, which the others want as well. -/
theorem walk_nil_cons (here : List Text) {names : List Text} (nonempty : names ≠ []) :
    root.walk here ([] :: names) = root.walk here names := by
  obtain ⟨name, rest, rfl⟩ := List.exists_cons_of_ne_nil nonempty
  conv_rhs => rw [walk]
  rw [walk]
  split
  · next found =>
    rw [if_pos (.inl rfl), walk, found]
  · rfl

/-- The path of something in a directory is followed by way of the directory. -/
theorem walk_child (here : List Text) (directory : Text) {name : Text}
    (relative : name.head? ≠ some '/') :
    root.walk here (Path.names (Path.child directory name))
      = root.walk here (Path.names directory) >>= fun there => root.walk there (Path.names name) := by
  have nonempty := Path.names_ne_nil name
  rw [← walk_append, Path.child, if_neg relative]
  split
  · next joined =>
    simp only [Bool.or_eq_true, List.isEmpty_iff, decide_eq_true_eq] at joined
    -- Either way the last name of the directory is empty, and the names of the entry take its place.
    rcases joined with rfl | slash
    · exact (walk_nil_cons here nonempty).symm
    · obtain ⟨front, rfl⟩ := List.getLast?_eq_some_iff.mp slash
      rw [List.append_assoc, List.singleton_append, Path.names_append_slash,
        Path.names_append_slash, List.append_assoc, walk_append, walk_append]
      exact bind_congr fun there => (walk_nil_cons there nonempty).symm
  · rw [Path.names_append_slash]

/-- What stands below some names and one more is what the directory there has under that name. -/
theorem find?_append (tree : FileTree) (front back : List Text) :
    tree.find? (front ++ back) = (tree.find? front).bind fun below => below.find? back := by
  induction front generalizing tree with
  | nil => rfl
  | cons name front ih =>
    cases tree with
    | file bytes => rfl
    | directory entries =>
      rw [List.cons_append, find?, find?, Option.bind_assoc]
      exact Option.bind_congr fun below _ => ih below

/-- The name of something in a directory: it is not empty, has no slash in it, and neither stays in the
directory nor goes back. -/
structure IsEntryName (name : Text) : Prop where
  nonempty : name ≠ []
  noSlash : '/' ∉ name
  notHere : name ≠ ['.']
  notBack : name ≠ ['.', '.']

/-- One step from a directory to something in it. -/
theorem walk_entry {here : List Text} {name : Text} {entries : List (Text × FileTree)}
    (found : root.find? here.reverse = some (.directory entries)) (proper : IsEntryName name) :
    root.walk here [name]
      = if (entries.lookup name).isSome then .ok (name :: here) else .error .notFound := by
  rw [walk, found]
  dsimp only
  rw [if_neg (by simp [proper.nonempty, proper.notHere]), if_neg proper.notBack]
  rfl

/-- An absolute path is followed name by name, and what stands at its end is looked up. -/
theorem at?_eq {path : Text} (nonempty : path ≠ []) :
    root.at? path = root.walk [] (Path.names path) >>= fun there =>
      (root.find? there.reverse).elim (.error .notFound) .ok := by
  rw [at?, place, if_neg (by simpa using nonempty)]
  cases root.walk [] (Path.names path) with
  | error error => rfl
  | ok there =>
    simp only [Except.map, bind, Except.bind]
    cases root.find? there.reverse <;> rfl

/-- At the path of a name in a directory stands what the directory has under that name. -/
theorem at?_child {directory name : Text} {entries : List (Text × FileTree)}
    (stands : root.at? directory = .ok (.directory entries)) (proper : IsEntryName name) :
    root.at? (Path.child directory name) = (entries.lookup name).elim (.error .notFound) .ok := by
  have nonempty : directory ≠ [] := by
    rintro rfl
    cases stands
  have child : Path.child directory name ≠ [] := by
    unfold Path.child
    split_ifs <;> simp [proper.nonempty]
  have relative : name.head? ≠ some '/' := fun slash => proper.noSlash (List.mem_of_head? slash)
  rw [at?_eq nonempty] at stands
  rw [at?_eq child, walk_child [] directory relative, Path.names_of_notMem proper.noSlash]
  cases walks : root.walk [] (Path.names directory) with
  | error error =>
    rw [walks] at stands
    cases stands
  | ok there =>
    rw [walks] at stands
    -- The path of the directory leads to this place, so the name is looked up in its entries.
    have found : root.find? there.reverse = some (.directory entries) := by
      change (root.find? there.reverse).elim _ _ = _ at stands
      cases here : root.find? there.reverse with
      | none => rw [here] at stands; cases stands
      | some tree => rw [here] at stands; exact congrArg some (Except.ok.inj stands)
    change (root.walk there [name] >>= _) = _
    rw [walk_entry found proper]
    cases below : entries.lookup name with
    | none => rfl
    | some tree =>
      have stands : root.find? (name :: there).reverse = some tree := by
        rw [List.reverse_cons, find?_append, found, Option.bind_some, find?, below]
        cases tree <;> rfl
      change (root.find? (name :: there).reverse).elim _ _ = _
      rw [stands]

end FileTree

end HclSyntax
