import HclSyntax.Proofs.Rule.Outcome

/-!
# `HclSyntax.Proofs.Text.Trim`: white space around a text

`Text.trim` cuts a text into white space, a text with none at its ends, and white space
(`trim_split`), and is the only such cut (`trim_eq`). Both are what a reader needs who trims what a
printer has put white space around.
-/

set_option autoImplicit false

namespace HclSyntax.Text

/-- A text of white space only. -/
def AllSpace (text : Text) : Prop :=
  ∀ c ∈ text, isWhitespace c = true

/-- A text with no white space at either end. -/
def Trimmed (text : Text) : Prop :=
  Stops isWhitespace text ∧ Stops isWhitespace text.reverse

/-- The empty text is white space. -/
theorem allSpace_nil : AllSpace [] := by
  simp [AllSpace]

/-- White space behind white space is white space. -/
theorem AllSpace.append {a b : Text} (ha : AllSpace a) (hb : AllSpace b) : AllSpace (a ++ b) := by
  intro c hc
  rcases List.mem_append.mp hc with hc | hc
  · exact ha c hc
  · exact hb c hc

/-- White space at the start is dropped. -/
theorem trimStart_append {space : Text} (h : AllSpace space) (text : Text) :
    trimStart (space ++ text) = trimStart text :=
  List.dropWhile_append_of_pos h

/-- A space at the start is dropped. -/
theorem trimStart_space (text : Text) : trimStart (' ' :: text) = trimStart text := by
  have isSpace : isWhitespace ' ' = true := by decide
  simp [trimStart, isSpace]

/-- Another character at the start stays. -/
theorem trimStart_cons {c : Char} (h : isWhitespace c = false) (text : Text) :
    trimStart (c :: text) = c :: text :=
  trimStart_of_stops ((stops_cons ..).mpr h)

/-- Skipping white space up to the end of the line comes first in skipping all of it. -/
theorem trimStart_trimInline (text : Text) : trimStart (trimInline text) = trimStart text := by
  have isSpace : AllSpace (text.takeWhile isInline) := by
    intro c hc
    have inline : isInline c = true := List.mem_takeWhile_imp hc
    exact (Bool.and_eq_true_iff.mp inline).1
  calc
    trimStart (trimInline text) = trimStart (text.takeWhile isInline ++ trimInline text) :=
      (trimStart_append isSpace _).symm
    _ = trimStart text := congrArg trimStart List.takeWhile_append_dropWhile

/-- What stands behind the white space of the first line stands behind all white space. -/
theorem head?_trimStart_of_trimInline {text : Text} {c : Char} (head : text.trimInline.head? = some c)
    (notSpace : isWhitespace c = false) : text.trimStart.head? = some c := by
  obtain ⟨rest, shape⟩ := List.head?_eq_some_iff.mp head
  rw [← trimStart_trimInline, shape, trimStart_cons notSpace]
  rfl

/-- A text is white space and what is left of it. -/
theorem trimStart_split (text : Text) : ∃ space, AllSpace space ∧ text = space ++ trimStart text :=
  ⟨text.takeWhile isWhitespace, fun _ hc => List.mem_takeWhile_imp hc,
    List.takeWhile_append_dropWhile.symm⟩

/-- No white space is left at the start. -/
theorem stops_trimStart (text : Text) : Stops isWhitespace (trimStart text) :=
  stops_dropWhile _ _

/-- White space read backwards is white space. -/
theorem AllSpace.reverse {text : Text} (h : AllSpace text) : AllSpace text.reverse :=
  fun c hc => h c (List.mem_reverse.mp hc)

/-- Nothing is left of white space. -/
theorem trimStart_of_allSpace {space : Text} (h : AllSpace space) : trimStart space = [] := by
  simpa [trimStart] using trimStart_append h []

/-- A beginning of a text that starts with no white space starts with none. -/
theorem Stops.of_append {accepts : Char → Bool} {a b : Text} (h : Stops accepts (a ++ b)) :
    Stops accepts a := by
  cases a with
  | nil => exact stops_nil _
  | cons c rest => exact h

/-- A text is its trimmed form with white space around it. -/
theorem trim_split (text : Text) :
    ∃ front back, AllSpace front ∧ AllSpace back ∧ text = front ++ trim text ++ back
      ∧ Trimmed (trim text) := by
  obtain ⟨front, hfront, start⟩ := trimStart_split text
  obtain ⟨back, hback, finish⟩ := trimStart_split (trimStart text).reverse
  have middle : trimStart text = trim text ++ back.reverse := by
    have := congrArg List.reverse finish
    rwa [List.reverse_reverse, List.reverse_append] at this
  refine ⟨front, back.reverse, hfront, hback.reverse, ?_, ?_, ?_⟩
  · rw [List.append_assoc, ← middle, ← start]
  · exact Stops.of_append (middle ▸ stops_trimStart text)
  · rw [trim, trimEnd, List.reverse_reverse]
    exact stops_trimStart _

/-- White space around a trimmed text is cut off. -/
theorem trim_eq {front text back : Text} (hfront : AllSpace front) (hback : AllSpace back)
    (h : Trimmed text) : trim (front ++ text ++ back) = text := by
  rw [trim, List.append_assoc, trimStart_append hfront]
  cases text with
  | nil => rw [List.nil_append, trimStart_of_allSpace hback]; rfl
  | cons c rest =>
    have starts : trimStart (c :: (rest ++ back)) = c :: (rest ++ back) := trimStart_of_stops h.1
    rw [List.cons_append, starts, trimEnd,
      ← List.cons_append, List.reverse_append, trimStart_append hback.reverse,
      trimStart_of_stops h.2, List.reverse_reverse]

/-- A text without white space at its ends stays as it is. -/
theorem trim_of_trimmed {text : Text} (h : Trimmed text) : trim text = text := by
  simpa using trim_eq allSpace_nil allSpace_nil h

/-- Something is left of a text that does not end with white space. -/
theorem trimStart_ne_nil {text : Text} (nonempty : text ≠ [])
    (ends : Stops isWhitespace text.reverse) : trimStart text ≠ [] := by
  intro nothing
  obtain ⟨space, allSpace, split⟩ := trimStart_split text
  rw [nothing, List.append_nil] at split
  obtain ⟨c, rest, same⟩ := List.exists_cons_of_ne_nil (List.reverse_ne_nil_iff.mpr nonempty)
  have isSpace := allSpace c (split ▸ List.mem_reverse.mp (same ▸ List.mem_cons_self))
  rw [same, stops_cons] at ends
  simp [isSpace] at ends

/-- Where something is left of a text, what follows it stays. -/
theorem trimStart_append_of_ne_nil {text : Text} (h : trimStart text ≠ []) (more : Text) :
    trimStart (text ++ more) = trimStart text ++ more := by
  obtain ⟨space, allSpace, split⟩ := trimStart_split text
  obtain ⟨c, rest, same⟩ := List.exists_cons_of_ne_nil h
  have stops : Stops isWhitespace (trimStart text ++ more) := by
    have first := stops_trimStart text
    rw [same] at first ⊢
    exact first
  calc
    trimStart (text ++ more) = trimStart (space ++ (trimStart text ++ more)) := by
      rw [← List.append_assoc, ← split]
    _ = trimStart text ++ more := by rw [trimStart_append allSpace, trimStart_of_stops stops]

end HclSyntax.Text
