import HclSyntax.Proofs.Grammar.Soundness
import HclSyntax.Proofs.Parse.Basic
import HclSyntax.Proofs.RoundTrip.Canonical

/-!
# `HclSyntax.Proofs.Parse.RoundTrip`: printed templates are read back

A document of the grammar that is told by its printed form is what is read from that form, in either
layout (`parse_render`). So a document that was read prints as a text with the same tree, unless one
of the conditions of `Faithful` fails (`parse_render_of_parse`). Documents of blocks, scalars, lists,
maps, types and comments meet them all (`parse_render_canonical`), so long as the compact form has no
comment to turn into one of the other kind.
-/

set_option autoImplicit false

namespace HclSyntax

open Grammar Rule Node

/-- A faithful document is read back. -/
theorem parse_render {document : Document} {layout : Layout}
    (inside : ∀ node ∈ document.declarations, IsDeclaration node)
    (faithful : document.root.Everywhere (Faithful layout.isCompact)) :
    parse (document.render layout) = .ok document := by
  have reads := declarationSequence_reads inside fun node mem =>
    declaration_itemReads (inside node mem) rfl (faithful.of_mem_inside mem)
  obtain ⟨left, allSpace, taken⟩ := reads.rule_text sequenceEnd_nil Text.allSpace_nil
  rw [List.nil_append, List.append_nil, List.append_nil] at taken
  have form : document.render layout = sequenceForm layout (forms layout document.declarations) := rfl
  rw [form]
  exact parse_of_declarations ((declarations_series layout _).trans taken)
    (Text.trimStart_of_allSpace allSpace)

/-- What was read from a text is read again from its printed form, where the tree is faithful. -/
theorem parse_render_of_parse {text : Text} {document : Document} {layout : Layout}
    (h : parse text = .ok document)
    (faithful : document.root.Everywhere (Faithful layout.isCompact)) :
    parse (document.render layout) = .ok document := by
  obtain ⟨rest, found, -⟩ := declarations_of_parse h
  exact parse_render (isDeclaration_of_declarations found) faithful

/-- Canonical documents are read back from their block form, and from their compact form when they
have no comments that end with their line. -/
theorem parse_render_canonical {document : Document}
    (canonical : ∀ node ∈ document.declarations, CanonicalDeclaration node) :
    parse (document.render (.ofIndent 0)) = .ok document
      ∧ (NoLineComments document.root →
          parse (document.render (.ofIndent (-1))) = .ok document) := by
  have inside : ∀ node ∈ document.declarations, IsDeclaration node := fun node mem =>
    (canonical node mem).isDeclaration
  have faithful {compact : Bool} (plain : compact = true → NoLineComments document.root) :
      document.root.Everywhere (Faithful compact) :=
    .intro trivial fun node mem =>
      (canonical node mem).everywhere (NoLineComments.inside plain mem)
  exact ⟨parse_render inside (faithful fun same => absurd same Bool.false_ne_true),
    fun plain => parse_render inside (faithful fun _ => plain)⟩

/-- A dynamic block of a typed property, a comment and a list. -/
theorem parse_render_canonical_block :
    ∃ document : Document,
      document.declarations = [.block ⟨.bare ['b'], true, some ['$'], none⟩
        [.property .type (.bare ['t']) (.collectionType .list (.primitiveType "any".toList true)),
          .multilineComment ['#'], .property .list (.bare ['l']) (.list [.string ['"']])]]
      ∧ parse (document.render (.ofIndent 0)) = .ok document
      ∧ parse (document.render (.ofIndent (-1))) = .ok document := by
  have long : 1 < forWord.length ∧ 1 < dynamicWord.length := by decide
  have bare (c : Char) (nameChar : isNameChar c = true) : CanonicalName (.bare [c]) :=
    ⟨fun quoted => absurd quoted Bool.false_ne_true, fun _ => ⟨List.cons_ne_nil _ _,
      List.forall_mem_singleton.mpr nameChar,
      fun same => absurd (congrArg List.length same) (Nat.ne_of_lt long.1),
      fun same => absurd (congrArg List.length same) (Nat.ne_of_lt long.2)⟩⟩
  have leaf {node : Node} (here : node.isLineComment = false) (nothing : node.inside = []) :
      NoLineComments node :=
    .intro here fun _ mem => absurd (nothing ▸ mem) List.not_mem_nil
  have single {node part : Node} (here : node.isLineComment = false) (only : node.inside = [part])
      (plain : NoLineComments part) : NoLineComments node :=
    .intro here fun _ mem => List.mem_singleton.mp (only ▸ mem) ▸ plain
  -- Both layouts read the same document back, the compact one as it has no line comment.
  refine ⟨⟨_⟩, rfl, (parse_render_canonical ?canonical).1,
    (parse_render_canonical ?canonical).2 ?plain⟩
  case canonical =>
    refine List.forall_mem_singleton.mpr (.block
      ⟨bare 'b' (by decide), by simp [Text.sequencesEnd], by simp, by simp⟩ ?_)
    exact List.forall_mem_cons.mpr ⟨.typed (bare 't' (by decide)) (.collection (.primitive (by decide))),
      List.forall_mem_cons.mpr ⟨.comment (by simp [IsComment]; decide), List.forall_mem_singleton.mpr
        (.list (bare 'l' (by decide)) (List.forall_mem_singleton.mpr
          (.string (by simp [Text.sequencesEnd]))))⟩⟩
  case plain =>
    refine single rfl rfl (.intro rfl (List.forall_mem_cons.mpr ⟨?_, List.forall_mem_cons.mpr
      ⟨leaf rfl rfl, List.forall_mem_singleton.mpr ?_⟩⟩))
    · exact single rfl rfl (single rfl rfl (leaf rfl rfl))
    · exact single rfl rfl (single rfl rfl (leaf rfl rfl))

end HclSyntax
