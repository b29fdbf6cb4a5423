import Mathlib.Data.List.Induction
import Mathlib.Data.List.Nodup
import ArchiveScript.Tree.Arena

/-! # Nodes of arenas

While an arena grows, its entries stay what they are. Each entry refers to earlier ones, and no two
entries refer to the same one, if the children of a new entry are taken from those that nothing
refers to yet.
-/

namespace ArchiveScript.Arena

variable {text : Entry → String} {entries more : List Entry} {entry : Entry} {position : Nat}
  {node : Node}

def references (entries : List Entry) : List Nat :=
  entries.flatMap fun (entry : Entry) => entry.children.map (·.2)

/-- The children of every entry come before it. -/
def Ascends (entries : List Entry) : Prop :=
  ∀ position (entry : Entry), entries[position]? = some entry →
    ∀ child ∈ entry.children, child.2 < position

theorem references_concat (entries : List Entry) (entry : Entry) :
    references (entries ++ [entry]) = references entries ++ entry.children.map (·.2) := by
  simp [references]

theorem Ascends.concat (h : Ascends entries)
    (he : ∀ child ∈ entry.children, child.2 < entries.length) : Ascends (entries ++ [entry]) := by
  intro position other ho
  rcases Nat.lt_or_ge position entries.length with hlt | hge
  · rw [List.getElem?_append_left hlt] at ho
    exact h position other ho
  · rw [List.getElem?_append_right hge] at ho
    obtain rfl := List.mem_singleton.1 (List.mem_of_getElem? ho)
    intro child hc
    exact Nat.lt_of_lt_of_le (he child hc) hge

theorem Ascends.lt_of_mem (h : Ascends entries) (hp : position ∈ references entries) :
    position < entries.length := by
  obtain ⟨entry, he, hc⟩ := List.mem_flatMap.1 hp
  obtain ⟨child, hchild, rfl⟩ := List.mem_map.1 hc
  obtain ⟨parent, hlt, hparent⟩ := List.mem_iff_getElem.1 he
  exact Nat.lt_trans (h parent entry (List.getElem?_eq_some_iff.2 ⟨hlt, hparent⟩) child hchild) hlt

theorem lookUp_cons {nodes : Array Node} (h : nodes[position]? = some node)
    (field : Option Field) (places : List (Option Field × Nat)) :
    lookUp nodes ((field, position) :: places) = (field, node) :: lookUp nodes places := by
  simp [lookUp, h]

theorem nodes_concat (text : Entry → String) (entries : List Entry) (entry : Entry) :
    nodes text (entries ++ [entry]) = grow text (nodes text entries) entry := by
  simp [nodes]

theorem size_nodes (text : Entry → String) (entries : List Entry) :
    (nodes text entries).size = entries.length := by
  induction entries using List.reverseRecOn with
  | nil => rfl
  | append_singleton entries entry ih => rw [nodes_concat, grow, Array.size_push, ih]; simp

theorem getElem?_nodes_concat (text : Entry → String) (entries : List Entry) (entry : Entry)
    (position : Nat) :
    (nodes text (entries ++ [entry]))[position]? =
      if position = entries.length then
        some (.mk entry.kind entry.span (text entry) (lookUp (nodes text entries) entry.children))
      else (nodes text entries)[position]? := by
  rw [nodes_concat, grow, Array.getElem?_push, size_nodes]

theorem lt_of_getElem?_nodes (h : (nodes text entries)[position]? = some node) :
    position < entries.length := by
  rw [← size_nodes text]
  exact (Array.getElem?_eq_some_iff.1 h).1

theorem getElem?_nodes_mono (h : (nodes text entries)[position]? = some node) (entry : Entry) :
    (nodes text (entries ++ [entry]))[position]? = some node := by
  rw [getElem?_nodes_concat, if_neg (Nat.ne_of_lt (lt_of_getElem?_nodes h)), h]

theorem span_nodes (text : Entry → String) (entries : List Entry) (position : Nat) :
    (nodes text entries)[position]?.map Node.span = entries[position]?.map Entry.span := by
  induction entries using List.reverseRecOn with
  | nil => rfl
  | append_singleton entries entry ih =>
    rw [getElem?_nodes_concat]
    split
    · rename_i h
      subst h
      rw [List.getElem?_concat_length]
      rfl
    · rw [ih, List.getElem?_append]
      split
      · rfl
      · rename_i hne hlt
        rw [List.getElem?_eq_none (Nat.not_lt.1 hlt), List.getElem?_singleton,
          if_neg (by omega)]

inductive Reaches (entries : List Entry) : Nat → Nat → Prop
  | refl (position : Nat) : Reaches entries position position
  | step {top position : Nat} {entry : Entry} {child : Option Field × Nat}
      (he : entries[top]? = some entry) (hc : child ∈ entry.children)
      (hr : Reaches entries child.2 position) : Reaches entries top position

/-- Children come before their parents. Below the root, each node has exactly one parent, and the
root has none. -/
structure Rooted (entries : List Entry) (root : Nat) : Prop where
  ascends : Ascends entries
  parentless : root ∉ references entries
  once : ∀ position, Reaches entries root position → position ≠ root →
    (references entries).count position = 1

theorem Reaches.eq_or_mem {top : Nat} (h : Reaches entries top position) :
    position = top ∨ position ∈ references entries := by
  induction h with
  | refl _ => exact .inl rfl
  | step he hc _ ih =>
    right
    rcases ih with rfl | hm
    · exact List.mem_flatMap.2 ⟨_, List.mem_of_getElem? he, List.mem_map_of_mem hc⟩
    · exact hm

/-- Where nothing is referred to twice, the nodes below a root that nothing refers to have exactly
one parent. -/
theorem Rooted.of_nodup {root : Nat} (ha : Ascends entries)
    (hn : (references entries ++ [root]).Nodup) : Rooted entries root := by
  have hroot : root ∉ references entries := fun hm =>
    List.disjoint_of_nodup_append hn hm List.mem_cons_self
  refine ⟨ha, hroot, fun position hr hne => ?_⟩
  exact List.count_eq_one_of_mem (List.Nodup.of_append_left hn) (hr.eq_or_mem.resolve_left hne)

end ArchiveScript.Arena
