import HclSyntax.Proofs.Files.Path
import HclSyntax.Templates
import Mathlib.Data.Char
import Mathlib.Data.List.Lex

/-!
# `HclSyntax.Proofs.Templates.Names`: which files of a directory are templates

`NamesTemplates` says which names a directory is loaded by, without the loader's own test and
comparison: those of its template files (`Entry.IsTemplateFile`), in the order of their characters.

* `Entry.isTemplate_iff`: the loader's test finds the template files;
* `Text.precedes_iff_le`: the loader compares names by the order of their characters;
* `NamesTemplates.templateNames`: so the loader goes by these names;
* `NamesTemplates.unique`: they do not depend on the order in which the directory is listed.
-/

set_option autoImplicit false

namespace HclSyntax

/-! ### Template files -/

/-- A template file is a regular file with something before the last point of its name, and `tf`,
`tfvars` or `hcl` behind it. -/
def Entry.IsTemplateFile (entry : Entry) : Prop :=
  entry.isFile = true ∧ ∃ stem extension, stem ≠ [] ∧ entry.name = stem ++ '.' :: extension
    ∧ extension ∈ ["tf".toList, "tfvars".toList, "hcl".toList]

/-- The loader, which looks at the extension of a name, takes the template files and nothing else. -/
theorem Entry.isTemplate_iff {entry : Entry} : entry.isTemplate = true ↔ entry.IsTemplateFile := by
  rw [isTemplate, IsTemplateFile, Bool.and_eq_true, Option.any_eq_true]
  refine and_congr_right fun _ => ?_
  -- None of the three extensions has a point in it, so the last point of the name is in front.
  have noPoint : ∀ extension ∈ templateExtensions, '.' ∉ extension := by decide
  constructor
  · rintro ⟨extension, found, listed⟩
    obtain ⟨stem, nonempty, split, -⟩ := Path.extension?_eq_some_iff.mp found
    exact ⟨stem, extension, nonempty, split, List.contains_iff_mem.mp listed⟩
  · rintro ⟨stem, extension, nonempty, split, listed⟩
    exact ⟨extension, Path.extension?_eq_some_iff.mpr ⟨stem, nonempty, split, noPoint _ listed⟩,
      List.contains_iff_mem.mpr listed⟩

instance (entry : Entry) : Decidable entry.IsTemplateFile :=
  decidable_of_iff _ Entry.isTemplate_iff

/-! ### The order of names -/

/-- Names come in the order of their characters. -/
theorem Text.precedes_iff_le {a b : Text} : Text.precedes a b = true ↔ a ≤ b := by
  induction a generalizing b with
  | nil => exact iff_of_true rfl (not_lt.mp (List.not_lt_nil b))
  | cons c rest ih =>
    cases b with
    | nil => exact iff_of_false Bool.false_ne_true (not_le.mpr (List.nil_lt_cons c rest))
    | cons d others =>
      rw [precedes, Bool.or_eq_true, Bool.and_eq_true, decide_eq_true_eq, decide_eq_true_eq, ih,
        le_iff_lt_or_eq, le_iff_lt_or_eq, List.cons_lt_cons_iff, List.cons.injEq, and_or_left,
        or_assoc]

/-- Sorting by the loader's comparison sorts by the order of characters. -/
theorem pairwise_mergeSort_precedes (names : List Text) :
    (names.mergeSort Text.precedes).Pairwise fun a b => a ≤ b := by
  have trans (a b c : Text) (hab : Text.precedes a b = true) (hbc : Text.precedes b c = true) :
      Text.precedes a c = true := by
    rw [Text.precedes_iff_le] at hab hbc ⊢
    exact le_trans hab hbc
  have total (a b : Text) : (Text.precedes a b || Text.precedes b a) = true := by
    rw [Bool.or_eq_true, Text.precedes_iff_le, Text.precedes_iff_le]
    exact le_total a b
  have sorted := List.pairwise_mergeSort trans total names
  exact sorted.imp Text.precedes_iff_le.mp

/-- The names are those of the template files among some entries, each as often as it is listed, in
the order of their characters. -/
structure NamesTemplates (entries : List Entry) (names : List Text) : Prop where
  perm : names.Perm ((entries.filter fun entry => entry.IsTemplateFile).map Entry.name)
  sorted : names.Pairwise fun a b => a ≤ b

namespace NamesTemplates

variable {entries others : List Entry} {names : List Text}

/-- The loader goes by the names of the template files in their order. -/
theorem templateNames (entries : List Entry) : NamesTemplates entries (templateNames entries) where
  perm := by
    have same : (fun entry : Entry => decide entry.IsTemplateFile) = Entry.isTemplate :=
      funext fun entry => Bool.eq_iff_iff.mpr (by rw [decide_eq_true_iff, Entry.isTemplate_iff])
    rw [same]
    exact List.mergeSort_perm _ _
  sorted := pairwise_mergeSort_precedes _

/-- The names in order do not depend on the order of the list. -/
theorem unique (h : NamesTemplates entries names) {again : List Text}
    (hagain : NamesTemplates others again) (perm : others.Perm entries) : again = names := by
  have same : again.Perm names := calc
    again.Perm _ := hagain.perm
    List.Perm _ _ := (perm.filter _).map _
    List.Perm _ names := h.perm.symm
  exact same.eq_of_pairwise (fun _ _ _ _ => le_antisymm) hagain.sorted h.sorted

/-- There are no names exactly when there are no template files. -/
theorem eq_nil_iff (h : NamesTemplates entries names) :
    names = [] ↔ ∀ entry ∈ entries, ¬ entry.IsTemplateFile := by
  have empty :
      names = [] ↔ (entries.filter fun entry => entry.IsTemplateFile).map Entry.name = [] :=
    ⟨fun none => List.perm_nil.mp (none ▸ h.perm.symm),
      fun none => List.perm_nil.mp (none ▸ h.perm)⟩
  rw [empty, List.map_eq_nil_iff, List.filter_eq_nil_iff]
  simp

end NamesTemplates

end HclSyntax
