import ArchiveScript.Tree.Node

/-! # The nodes of a tree

A node reaches itself and all that its children reach.
-/

namespace ArchiveScript.Node

/-- The second node is in the tree below the first one, or it is the first one. -/
inductive Reaches : Node → Node → Prop
  | refl (node : Node) : Reaches node node
  | step {top node : Node} {child : Child} :
      child ∈ top.children → Reaches child.2 node → Reaches top node

namespace Reaches

variable {top node : Node}

theorem trans {middle : Node} (h : top.Reaches middle) (h' : middle.Reaches node) :
    top.Reaches node := by
  induction h with
  | refl _ => exact h'
  | step hm _ ih => exact step hm (ih h')

theorem child (h : top.Reaches node) {child : Child} (hm : child ∈ node.children) :
    top.Reaches child.2 :=
  h.trans (step hm (refl _))

theorem field? (h : top.Reaches node) {field : Field} {found : Node}
    (hf : node.field? field = some found) : top.Reaches found := by
  obtain ⟨child, hc, rfl⟩ := Option.map_eq_some_iff.1 hf
  exact h.child (List.mem_of_find?_eq_some hc)

theorem first? (h : top.Reaches node) {found : Node} (hf : node.first? = some found) :
    top.Reaches found := by
  obtain ⟨child, hc, rfl⟩ := Option.map_eq_some_iff.1 hf
  exact h.child (List.mem_of_mem_head? hc)

end Reaches

end ArchiveScript.Node
