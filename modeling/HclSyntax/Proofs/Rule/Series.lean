import HclSyntax.Proofs.Rule.Progress
import HclSyntax.Proofs.Text.Trim

/-!
# `HclSyntax.Proofs.Rule.Series`: items one after the other

Declarations, list elements, arguments and the parts of type constraints are all printed and read in
the same way: item after item, with white space before each, and perhaps a comma after it. `Series`
holds what differs between them, the printed text of some items is `Series.text` and the rule that
reads it is `Series.rule`.

`Series.Fits` lists what has to be known of the items and of the text behind them, and
`Series.rule_text` concludes that the rule reads the items back. An item may leave white space
behind that its own rule did not take, its `overhang`.
-/

set_option autoImplicit false

namespace HclSyntax

open Rule

/-- How the items of a sequence are printed and read. -/
structure Series (α : Type) where
  /-- Reads one item. -/
  item : Rule α
  /-- Skips what may stand between an item and its comma. -/
  gap : Rule Unit
  comma : Rule Char
  /-- The white space in front of an item. -/
  margin : Text
  /-- The white space behind an item and its comma. -/
  glue : Text
  form : α → Text
  /-- The comma printed behind an item, if it has one. -/
  separator : α → Text
  /-- What the rule leaves behind an item. -/
  overhang : α → Text

namespace Series

variable {α : Type} {series : Series α} {items : List α} {tail : Text}

/-- Reads items for as long as there are some, each with a comma after it or without. -/
def rule (series : Series α) : Rule (List α) :=
  many do
    whitespace
    let found ← series.item
    let _ ← optional do
      series.gap
      series.comma
    return found

/-- The printed items; the last one takes no comma. -/
def text (series : Series α) : List α → Text
  | [] => []
  | [item] => series.margin ++ series.form item
  | item :: next :: rest =>
    series.margin ++ series.form item ++ series.separator item ++ series.glue
      ++ series.text (next :: rest)

/-- What makes the items of a series readable in front of `tail`. `follows` says which text an item
stands in front of. -/
structure Fits (series : Series α) (follows : α → Text → Prop) (items : List α) (tail : Text) :
    Prop where
  margin : Text.AllSpace series.margin
  glue : Text.AllSpace series.glue
  item : Descends series.item
  gap : Descends series.gap
  comma : Descends series.comma
  overhang : ∀ item ∈ items, Text.AllSpace (series.overhang item)
  /-- An item does not start with white space. -/
  starts : ∀ item ∈ items, ∃ c rest, series.form item = c :: rest ∧ isWhitespace c = false
  reads : ∀ item ∈ items, ∀ rest, follows item rest →
    series.item (series.form item ++ rest) = .matched item (series.overhang item ++ rest)
  between : ∀ item ∈ items.dropLast, ∀ next ∈ items, ∀ rest,
    follows item
      (series.separator item ++ (series.glue ++ (series.margin ++ (series.form next ++ rest))))
  /-- Only white space is left in front of the next item. -/
  separates : ∀ item ∈ items.dropLast, ∀ next ∈ items, ∀ rest, ∃ found space,
    Text.AllSpace space
      ∧ optional (series.gap >>= fun _ => series.comma)
          (series.overhang item ++ (series.separator item
            ++ (series.glue ++ (series.margin ++ (series.form next ++ rest)))))
        = .matched found (space ++ (series.margin ++ (series.form next ++ rest)))
  atEnd : ∀ item ∈ items.getLast?, follows item tail
  noComma : ∀ item ∈ items.getLast?,
    (series.gap >>= fun _ => series.comma).Mismatches (series.overhang item ++ tail)
  ends : series.item.Mismatches tail.trimStart

/-- The rule is the repetition of one step. -/
def step (series : Series α) : Rule α := do
  whitespace
  let found ← series.item
  let _ ← optional do
    series.gap
    series.comma
  return found

/-- A series is read step by step. -/
theorem rule_eq (series : Series α) : series.rule = many series.step := rfl

/-- One step takes the white space, the item, and the comma if there is one. -/
theorem step_of_reads {space front behind after : Text} {item : α} {found : Option Char}
    (hspace : Text.AllSpace space) (hfront : Text.trimStart front = front)
    (reads : series.item front = .matched item behind)
    (comma : optional (series.gap >>= fun _ => series.comma) behind = .matched found after) :
    series.step (space ++ front) = .matched item after := by
  refine bind_matched_iff.mpr ⟨(), front, ?_, bind_matched_iff.mpr ⟨item, behind, reads,
    bind_matched_iff.mpr ⟨found, after, comma, rfl⟩⟩⟩
  rw [whitespace_apply, Text.trimStart_append hspace, hfront]

/-- A series ends where no item follows the white space. -/
theorem mismatches_step (ends : series.item.Mismatches tail.trimStart) {space : Text}
    (hspace : Text.AllSpace space) : series.step.Mismatches (space ++ tail) := by
  refine Mismatches.behind (whitespace_apply _) ?_
  rw [Text.trimStart_append hspace]
  exact ends.bind _

/-- Nothing is read where no item follows. -/
theorem rule_of_mismatches (ends : series.item.Mismatches tail.trimStart) {space : Text}
    (hspace : Text.AllSpace space) : series.rule (space ++ tail) = .matched [] (space ++ tail) :=
  many_of_mismatches (mismatches_step ends hspace)

variable {follows : α → Text → Prop}

/-- What fits as a whole fits without its first item. -/
theorem Fits.behind {item next : α} {rest : List α}
    (fits : series.Fits follows (item :: next :: rest) tail) :
    series.Fits follows (next :: rest) tail where
  margin := fits.margin
  glue := fits.glue
  item := fits.item
  gap := fits.gap
  comma := fits.comma
  overhang other mem := fits.overhang other (List.mem_cons_of_mem _ mem)
  starts other mem := fits.starts other (List.mem_cons_of_mem _ mem)
  reads other mem := fits.reads other (List.mem_cons_of_mem _ mem)
  between other mem after hafter :=
    fits.between other (by simp [mem]) after (List.mem_cons_of_mem _ hafter)
  separates other mem after hafter :=
    fits.separates other (by simp [mem]) after (List.mem_cons_of_mem _ hafter)
  atEnd other mem := fits.atEnd other (by simpa using mem)
  noComma other mem := fits.noComma other (by simpa using mem)
  ends := fits.ends

/-- There is no white space in front of an item to skip. -/
theorem Fits.trimStart_form {item : α} (fits : series.Fits follows items tail)
    (mem : item ∈ items) (more : Text) :
    Text.trimStart (series.form item ++ more) = series.form item ++ more := by
  obtain ⟨c, form, hform, notSpace⟩ := fits.starts item mem
  rw [hform]
  exact Text.trimStart_cons notSpace _

/-- Reading an item takes something of it, since what is left of it is white space only. -/
theorem Fits.shorter {item : α} (fits : series.Fits follows items tail) (mem : item ∈ items)
    {rest : Text} (behind : follows item rest) :
    (series.overhang item).length < (series.form item).length := by
  have descends := fits.item
  obtain ⟨taken, split⟩ := Descends.of_matched (fits.reads item mem rest behind)
  rw [← List.append_assoc] at split
  have whole := List.append_cancel_right split
  obtain ⟨c, form, hform, notSpace⟩ := fits.starts item mem
  -- If nothing was taken, the white space that is left would be the printed item, which does not
  -- start with any.
  cases taken with
  | nil =>
    rw [hform] at whole
    have first : c ∈ series.overhang item := by
      rw [show series.overhang item = c :: form from whole]
      simp
    have space := fits.overhang item mem c first
    simp [notSpace] at space
  | cons d taken =>
    rw [← whole]
    simp only [List.length_append, List.length_cons]
    omega

/-- The text of a series starts with its first item. -/
theorem text_cons (series : Series α) (item : α) (rest : List α) :
    ∃ more, series.text (item :: rest) = series.margin ++ (series.form item ++ more) := by
  cases rest with
  | nil => exact ⟨[], by simp [text]⟩
  | cons next rest =>
    exact ⟨series.separator item ++ series.glue ++ series.text (next :: rest), by simp [text]⟩

/-- The printed items are read back, and only white space is left in front of what follows them. -/
theorem rule_text {item : α} {rest : List α} (fits : series.Fits follows (item :: rest) tail)
    {space : Text} (hspace : Text.AllSpace space) :
    ∃ left, Text.AllSpace left
      ∧ series.rule (space ++ (series.text (item :: rest) ++ tail))
        = .matched (item :: rest) (left ++ tail) := by
  induction rest generalizing item space with
  | nil =>
    have hitem : item ∈ [item] := List.mem_cons_self
    -- The last item: the step reads it and no comma, and the next step ends the repetition.
    have behind := fits.reads item hitem tail (fits.atEnd item (by simp))
    have step := step_of_reads (hspace.append fits.margin) (fits.trimStart_form hitem tail) behind
      (optional_of_mismatches (fits.noComma item (by simp)))
    have left := fits.overhang item hitem
    have shorter := fits.shorter hitem (fits.atEnd item (by simp))
    refine ⟨series.overhang item, left, ?_⟩
    rw [rule_eq, text, List.append_assoc, ← List.append_assoc]
    refine many_of_matched step ?_ (rule_of_mismatches fits.ends left)
    simp only [List.length_append]
    omega
  | cons next rest ih =>
    have hitem : item ∈ item :: next :: rest := List.mem_cons_self
    have hnext : next ∈ item :: next :: rest := by simp
    obtain ⟨more, hmore⟩ := series.text_cons next rest
    obtain ⟨found, between, allSpace, comma⟩ :=
      fits.separates item (by simp) next hnext (more ++ tail)
    -- The step reads the item and what separates it from the next one; the induction goes on from
    -- the white space it leaves.
    have behind := fits.reads item hitem _ (fits.between item (by simp) next hnext (more ++ tail))
    have step := step_of_reads (hspace.append fits.margin) (fits.trimStart_form hitem _) behind comma
    have hgap := fits.gap
    have hcomma := fits.comma
    have taken := (Descends.of_matched comma).length_le
    have shorter := fits.shorter hitem (fits.between item (by simp) next hnext (more ++ tail))
    obtain ⟨left, hleft, others⟩ := ih fits.behind allSpace
    refine ⟨left, hleft, ?_⟩
    have shape : space ++ (series.text (item :: next :: rest) ++ tail)
        = space ++ series.margin ++ (series.form item ++ (series.separator item
            ++ (series.glue ++ (series.margin ++ (series.form next ++ (more ++ tail)))))) := by
      simp [text, hmore]
    have goesOn : between ++ (series.text (next :: rest) ++ tail)
        = between ++ (series.margin ++ (series.form next ++ (more ++ tail))) := by
      simp [hmore]
    rw [rule_eq, shape]
    rw [rule_eq, goesOn] at others
    -- The repetition only goes on behind a step that takes something, which the item is.
    refine many_of_matched step ?_ others
    simp only [List.length_append] at taken ⊢
    omega

end Series

end HclSyntax
