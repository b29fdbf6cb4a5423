import ArchiveScript.Proofs.Tree.Grammar

/-! # The nesting of archives

Which entries may stand below which in the description of an archive, and the trees that declare
nothing else. A run takes the declarations inside a declaration as they are, so that nothing but
the tree keeps the nesting.
-/

namespace ArchiveScript

def ArchiveKind.below : ArchiveKind → List ArchiveKind
  | metadata => [info, schema]
  | schema => [type, table, view]
  | table => [column, key, check]
  | view => [column]
  | column | field => [field]
  | info | type | key | check => []

inductive Outline.Nests : Outline ArchiveKind → Prop
  | mk {kind : ArchiveKind} {name data : String} {children : List (Outline ArchiveKind)}
      (hk : ∀ child ∈ children, child.kind ∈ kind.below) (hn : ∀ child ∈ children, child.Nests) :
      Nests (.mk kind name data children)

def Outline.IsCommand (command : Outline CommandKind) : Prop :=
  ∃ (title sql : String) (parameters : List (String × String)),
    command = .mk .command "" title
      (parameters.map (fun parameter => .leaf .parameter parameter.1 parameter.2) ++
        [.leaf .sql "" sql])

namespace Outline

theorem Nests.leaf (kind : ArchiveKind) (name data : String) : (leaf kind name data).Nests :=
  .mk nofun nofun

theorem Nests.push {outline entry : Outline ArchiveKind} (h : outline.Nests)
    (hk : entry.kind ∈ outline.kind.below) (he : entry.Nests) : (outline.push entry).Nests := by
  obtain ⟨ho, hn⟩ := h
  refine .mk (fun child hc => ?_) fun child hc => ?_
  all_goals rcases List.mem_append.1 hc with hc | hc
  · exact ho child hc
  · exact List.mem_singleton.1 hc ▸ hk
  · exact hn child hc
  · exact List.mem_singleton.1 hc ▸ he

theorem kind_push (outline entry : Outline ArchiveKind) :
    (outline.push entry).kind = outline.kind := by
  cases outline
  rfl

end Outline

namespace Grammar

open Run

/-- A declaration of the given kind, with declarations inside it that may stand there. -/
inductive DeclaresNested : ArchiveKind → Node → Prop
  | mk {kind : ArchiveKind} {node : Node} (hk : declarationKind? node.kind = some kind)
      (hb : ∀ child ∈ node.children, ∀ inner, declarationKind? child.2.kind = some inner →
        inner ∈ kind.below)
      (hn : ∀ child ∈ node.children, ∀ inner, declarationKind? child.2.kind = some inner →
        DeclaresNested inner child.2) : DeclaresNested kind node

/-- A statement in which, and in whose blocks, all schemas are nested. -/
inductive NestsSchemas : Node → Prop
  | mk {node : Node}
      (hm : node.kind = .siardMetadata → ∀ child ∈ node.children,
        child.2.kind = .siardSchema → DeclaresNested .schema child.2)
      (hb : ∀ field ∈ blockPlaces node.kind, ∀ block, node.field? field = some block →
        ∀ child ∈ block.children, NestsSchemas child.2) : NestsSchemas node

end Grammar

end ArchiveScript
