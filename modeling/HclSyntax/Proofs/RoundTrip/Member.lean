import HclSyntax.Proofs.RoundTrip.Block
import HclSyntax.Proofs.RoundTrip.SettledShape
import HclSyntax.Proofs.RoundTrip.Told
import HclSyntax.Proofs.RoundTrip.TypeConstraint

/-!
# `HclSyntax.Proofs.RoundTrip.Member`: maps that are read as object types

The argument of a call of `object` is read as the members of an object type first, entry by entry, as
far as they are members. `members_stop` says where that ends: the comments and the properties with a type
in front are read, and the first other entry is not, since a block has no equals sign behind its
name, and a property no type. So the brace that closes the members is not found.
-/

set_option autoImplicit false

namespace HclSyntax.Grammar

open Rule Node

variable {layout : Layout} {compact : Bool}

/-! ### Types are told -/

mutual

/-- A type that is told is told from all others: it has no value in it. -/
theorem IsType.faithful : ∀ {node : Node}, IsType node → node.Everywhere (Told compact) →
    node.Everywhere (Faithful compact)
  | _, .primitive _, _ => .intro trivial nofun
  | _, .collection inside, told => .intro trivial fun _ mem =>
    List.mem_singleton.mp mem ▸ inside.faithful (told.of_mem_inside List.mem_cons_self)
  | _, .object inside, told => .intro trivial fun member mem =>
    (inside member mem).faithful (told.of_mem_inside mem)
  | _, .tuple inside, told => .intro trivial fun element mem =>
    (inside element mem).faithful (told.of_mem_inside mem)

/-- A member whose parts can be told apart is read back faithfully. -/
theorem IsMember.faithful : ∀ {node : Node}, IsMember node → node.Everywhere (Told compact) →
    node.Everywhere (Faithful compact)
  | .comment _ _, .comment _, told => .intro told.here nofun
  | .multilineComment _, .comment _, _ => .intro trivial nofun
  | _, .typed _ isType, told => .intro ⟨told.here.1, fun other => absurd rfl other⟩ fun _ mem =>
    List.mem_singleton.mp mem ▸ isType.faithful (told.of_mem_inside List.mem_cons_self)

end

/-! ### Entries that are no members -/

/-- No block is a member of an object type. -/
theorem mismatches_member_block {header : BlockHeader} (isHeader : IsHeader header)
    (ends : HeaderEnds header) (rest : Text) :
    memberRule.Mismatches (header.source ++ ' ' :: '{' :: rest) := by
  obtain ⟨name, isDynamic, label, typeLabel⟩ := header
  -- A brace or the quotation mark of a label stands behind the name.
  obtain ⟨c, tail, listed, labels⟩ : ∃ c tail, c ∈ ['{', '"']
      ∧ BlockHeader.source.labelSource label ++ (BlockHeader.source.labelSource typeLabel
        ++ ' ' :: '{' :: rest) = ' ' :: c :: tail := by
    cases label with
    | none =>
      cases typeLabel with
      | none => exact ⟨'{', rest, by decide, rfl⟩
      | some second => exact absurd (isHeader.labels rfl) Bool.false_ne_true
    | some first => exact ⟨'"', _, by decide, rfl⟩
  have apart : ∀ c ∈ ['{', '"'], Text.isInline c = false ∧ c ∉ ['=', ':'] := by decide
  have noEquals : equals.Mismatches (' ' :: c :: tail) := by
    have blank : Text.isInline ' ' = true := by decide
    have trims : Text.trimInline (' ' :: c :: tail) = c :: tail := by
      rw [Text.trimInline, List.dropWhile_cons_of_pos blank]
      exact Text.trimInline_of_stops ((Text.stops_cons ..).mpr (apart c listed).1)
    refine mismatches_equals ?_
    rw [trims]
    rintro _ ⟨⟩
    exact (apart c listed).2
  have noComment : comment.Mismatches (dynamicMark isDynamic ++ (name.source ++ ' ' :: c :: tail)) := by
    cases isDynamic with
    | true =>
      have head : (dynamicMark true ++ (name.source ++ ' ' :: c :: tail)).head? = some 'd' := rfl
      exact mismatches_comment (by rw [head]; decide) (by rw [head]; decide)
    | false => exact mismatches_comment_name isHeader.name _
  rw [source_body, labels]
  exact mismatches_orElse_iff.mpr ⟨noComment, mismatches_assignment isHeader.name ends.name noEquals _⟩

/-- A property whose value starts no type is no member of an object type. -/
theorem mismatches_member_property {name : Name} (isName : IsName name) (ends : NameEnds name)
    {value : Text} (noSpace : Text.Stops isWhitespace value)
    (noType : typeConstraint.Mismatches value) :
    memberRule.Mismatches (name.source ++ ' ' :: '=' :: ' ' :: value) := by
  refine mismatches_orElse_iff.mpr ⟨mismatches_comment_name isName _, ?_⟩
  have named := propertyName_assignment isName ends value
  have assigns := equals_append noSpace
  exact Mismatches.behind named (Mismatches.behind assigns (noType.bind _))

/-! ### Entries one after the other -/

/-- The entries of a map are read as members up to the first one that is none. -/
theorem members_stop {entries : List Node} (inside : ∀ entry ∈ entries, IsDeclaration entry)
    (told : ∀ entry ∈ entries, entry.Everywhere (Told layout.isCompact))
    (misses : ∀ entry ∈ entries, entry.isMember = false → opensMember entry = false →
      ∀ rest, DeclarationEnd layout rest →
        memberRule.Mismatches ((entry.lead ++ valueForm layout entry) ++ rest))
    (closed : entriesOpen entries = false) {tail : Text} (ends : DeclarationEnd layout tail)
    {front : Text} (hfront : Text.AllSpace front) :
    ∃ found left, (sequenceSeries layout memberRule inlineWhitespace (char ',')).rule
        (front ++ (sequenceForm layout (forms layout entries) ++ tail)) = .matched found left
      ∧ left.trimStart.head? ≠ some '}' := by
  let series := sequenceSeries layout memberRule inlineWhitespace (char ',')
  have text {entries : List Node} (inside : ∀ entry ∈ entries, IsDeclaration entry) :
      sequenceForm layout (forms layout entries) = series.text entries :=
    sequenceForm_eq_text (fun node mem => (inside node mem).margin) rfl rfl rfl
  -- The entries that are members are read, up to the first that is none and does not start as one.
  induction entries generalizing front with
  | nil => exact absurd closed (by simp [entriesOpen])
  | cons entry rest ih =>
    obtain ⟨here, others⟩ := List.forall_mem_cons.mp inside
    have starts : StartsWith startsItem (entry.lead ++ valueForm layout entry) :=
      here.starts.mono fun _ => startsItem_of_startsDeclaration
    rw [entriesOpen] at closed
    cases member : entry.isMember with
    | false =>
      rw [member, if_neg Bool.false_ne_true] at closed
      -- Whether or not other entries follow, something follows that may stand behind this one.
      obtain ⟨behind, follows, shape⟩ : ∃ behind, DeclarationEnd layout behind
          ∧ series.text (entry :: rest) ++ tail
            = layout.margin ++ ((entry.lead ++ valueForm layout entry) ++ behind) := by
        cases rest with
        | nil => exact ⟨tail, ends, List.append_assoc ..⟩
        | cons next more =>
          obtain ⟨after, later⟩ := series.text_cons next more
          refine ⟨_, (others next List.mem_cons_self).declarationEnd (after ++ tail), ?_⟩
          rw [Series.text, later]
          simp [series, sequenceSeries]
      have stops : memberRule.Mismatches
          (Text.trimStart ((entry.lead ++ valueForm layout entry) ++ behind)) := by
        rw [starts.trimStart]
        exact misses entry List.mem_cons_self member closed behind follows
      rw [text inside, shape, ← List.append_assoc]
      refine ⟨[], _, Series.rule_of_mismatches stops
        (hfront.append (allSpace_margin layout)), ?_⟩
      obtain ⟨c, form, first, item⟩ := starts
      rw [Text.trimStart_append (hfront.append (allSpace_margin layout)), first, List.cons_append,
        Text.trimStart_cons (isWhitespace_of_startsItem item)]
      simpa using startsItem_apart item (by decide)
    | true =>
      rw [member, if_pos rfl] at closed
      obtain ⟨next, more, rfl⟩ : ∃ next more, rest = next :: more := by
        cases rest with
        | nil => exact absurd closed (by simp [entriesOpen])
        | cons next more => exact ⟨next, more, rfl⟩
      have isMember := here.isMember member
      -- The member is read back by itself, and then the series goes on.
      have read : SequenceReads layout memberRule inlineWhitespace (char ',') [entry] :=
        memberSequence_reads (List.forall_mem_singleton.mpr isMember) (List.forall_mem_singleton.mpr
          (member_itemReads isMember rfl (isMember.faithful (told entry List.mem_cons_self))))
      obtain ⟨found, left, stops, notClosed⟩ := ih others
        (fun other mem => told other (List.mem_cons_of_mem _ mem))
        (fun other mem => misses other (List.mem_cons_of_mem _ mem)) closed
        (@allSpace_elementGap layout)
      obtain ⟨after, later⟩ := series.text_cons next more
      have step := read.step List.mem_cons_self (others next List.mem_cons_self) (after ++ tail)
        (hfront.append (allSpace_margin layout))
      have behind : elementGap layout ++ (sequenceForm layout (forms layout (next :: more)) ++ tail)
          = elementGap layout ++ (layout.margin ++ ((next.lead ++ valueForm layout next)
            ++ (after ++ tail))) := by
        rw [text others, later]
        simp [series, sequenceSeries]
      have shape : front ++ (sequenceForm layout (forms layout (entry :: next :: more)) ++ tail)
          = (front ++ layout.margin) ++ ((entry.lead ++ valueForm layout entry)
            ++ (declarationComma layout ++ (elementGap layout ++ (layout.margin
              ++ ((next.lead ++ valueForm layout next) ++ (after ++ tail)))))) := by
        rw [text inside, Series.text, later]
        simp [series, sequenceSeries]
      rw [behind] at stops
      refine ⟨entry :: found, left, ?_, notClosed⟩
      rw [shape]
      refine many_of_matched step ?_ stops
      obtain ⟨c, form, first, -⟩ := starts
      rw [first]
      simp only [List.length_append, List.length_cons]
      omega

end HclSyntax.Grammar
