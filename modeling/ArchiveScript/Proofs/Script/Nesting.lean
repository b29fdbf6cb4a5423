import ArchiveScript.Proofs.Script.Grammatical
import ArchiveScript.Proofs.Tree.Nesting

/-! # Declarations are read where they may stand

The block of a declaration takes only the declarations that may stand in it, and a metadata block
takes schemas. This is so in texts with mistakes, too, because nothing is left of an item that
stands where it may not.
-/

namespace ArchiveScript

open Grammar Node Run

variable {node : Node} {kind : Kind} {entry : ArchiveKind}

/-- The readers of declarations know the nesting. -/
theorem nested_below {owner : Kind} (hk : declarationKind? owner = some entry)
    (hm : kind ∈ (Declaration.nested owner).map (·.2)) {inner : ArchiveKind}
    (hi : declarationKind? kind = some inner) : inner ∈ entry.below := by
  have hall : ∀ kind ∈ (Declaration.nested owner).map (·.2), ∀ inner ∈ declarationKind? kind,
      ∀ entry ∈ declarationKind? owner, inner ∈ entry.below := by
    cases owner <;> decide
  exact hall kind hm inner hi entry hk

theorem declaresNested (h : node.Throughout Expands)
    (hk : declarationKind? node.kind = some entry) : DeclaresNested entry node := by
  induction h generalizing entry with
  | @mk node hn hc ih =>
    have hd := isSome_declarationKind?.1 (Option.isSome_of_eq_some hk)
    refine .mk hk (fun child hm inner hi => ?_) fun child hm inner hi => ih child hm hi
    rcases declared_child hn hd hm with ⟨-, he⟩ | ⟨-, he⟩ | hitem
    · rw [he] at hi
      cases hi
    · rw [he] at hi
      cases hi
    · obtain ⟨place, child⟩ := child
      cases place with
      | none => exact nested_below hk hitem hi
      | some field =>
        have hnone : ∀ kind ∈ textKinds, declarationKind? kind = none := by decide
        rw [hnone _ hitem.2] at hi
        cases hi

theorem nestsSchemas (h : node.Throughout Expands) :
    NestsSchemas node ∧ ∀ child ∈ node.children, NestsSchemas child.2 := by
  induction h with
  | mk _ hc ih =>
    refine ⟨.mk (fun _ child hm hk => declaresNested (hc child hm) (hk ▸ rfl)) ?_, fun child hm =>
      (ih child hm).1⟩
    exact fun _ _ _ hb => (ih _ (mem_of_field? hb)).2

/-- The schemas of a script are nested, wherever they stand in it. -/
theorem parse_nests (source : List Char) :
    ∀ child ∈ (parse source).tree.children, NestsSchemas child.2 :=
  (nestsSchemas (parse_expands source)).2

end ArchiveScript
