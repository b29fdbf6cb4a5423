import ArchiveScript.Proofs.Script.Productions
import ArchiveScript.Run.Statement

/-! # The grammar of trees

What a tree has to look like for its nodes to mean something: which children stand at which
places, and of which kinds they are. The conditions are those that a run relies on, and no more.
-/

namespace ArchiveScript

namespace Node

def Has (node : Node) (field : Field) (P : Node → Prop) : Prop :=
  ∃ child, node.field? field = some child ∧ P child

/-- A child at the place, if there is one, satisfies `P`. -/
def MayHave (node : Node) (field : Field) (P : Node → Prop) : Prop :=
  ∀ child, node.field? field = some child → P child

/-- The node has a first child, which satisfies `P`. -/
def Wraps (node : Node) (P : Node → Prop) : Prop :=
  ∃ child, node.first? = some child ∧ P child

def All (node : Node) (P : Node → Prop) : Prop := ∀ child ∈ node.children, P child.2

@[simp]
theorem kind_spanning (kind : Kind) (start stop : Nat) (children : List Child) :
    (spanning kind start stop children).kind = kind := rfl

theorem mem_of_field? {node child : Node} {field : Field} (h : node.field? field = some child) :
    (some field, child) ∈ node.children := by
  obtain ⟨⟨place, found⟩, hf, rfl⟩ := Option.map_eq_some_iff.1 h
  have hp : place = some field := by simpa using List.find?_some hf
  rw [← hp]
  exact List.mem_of_find?_eq_some hf

theorem MayHave.of_mem {node : Node} {field : Field} {P : Node → Prop}
    (h : ∀ child ∈ node.children, child.1 = some field → P child.2) : node.MayHave field P :=
  fun _ hc => h _ (mem_of_field? hc) rfl

theorem MayHave.has {node : Node} {field : Field} {P : Node → Prop} (h : node.MayHave field P)
    (ha : node.children.any (·.1 == some field) = true) : node.Has field P := by
  obtain ⟨child, hc⟩ := Option.isSome_iff_exists.1 (List.find?_isSome.2 (List.any_eq_true.1 ha))
  have hf : node.field? field = some child.2 := by
    rw [field?, hc]
    rfl
  exact ⟨child.2, hf, h child.2 hf⟩

end Node

namespace Grammar

def IsName (node : Node) : Prop := node.kind = .identifier

def comparisonTexts : List String := ["==", "!=", "<=", ">=", "<", ">"]

inductive IsBasic : Node → Prop
  | string {node : Node} (hk : node.kind = .string)
      (hp : node.All fun piece => piece.kind ∈ stringKinds)
      (hf : node.All fun piece => piece.kind = .interpolation → piece.first?.isSome)
      (hv : ∀ piece ∈ node.children, ∀ value, piece.2.kind = .interpolation →
        piece.2.first? = some value → IsBasic value) : IsBasic node
  | integer {node : Node} (hk : node.kind = .integer) (ht : (Text.integer? node.text).isSome) :
      IsBasic node
  | variableInstance {node : Node} (hk : node.kind = .variableInstance) (hn : node.Wraps IsName) :
      IsBasic node
  | operation {node left : Node} (hk : node.kind = .dotExpression)
      (hl : node.field? .left = some left) (hb : IsBasic left) (hr : node.Has .right IsName) :
      IsBasic node

def IsRawPiece (piece : Node) : Prop :=
  piece.kind = .rawContent ∨ piece.kind ∈ interpolationKinds ∧ piece.Wraps IsBasic

structure IsRaw (node : Node) : Prop where
  kind : node.kind = .raw
  pieces : node.All IsRawPiece

def IsText (node : Node) : Prop := IsRaw node ∨ IsBasic node

structure IsComparison (node : Node) : Prop where
  left : node.Has .left IsBasic
  operator : node.Has .operator fun operator => operator.text ∈ comparisonTexts
  right : node.Has .right IsBasic

structure IsParameter (node : Node) : Prop where
  kind : node.kind = .parameter
  name : node.Has .name IsName

structure IsProperty (node : Node) : Prop where
  key : node.Has .key IsName
  value : node.Has .value IsText

structure IsScriptCall (node : Node) : Prop where
  interpreter : node.Has .interpreter IsBasic
  script : node.Has .script IsRaw

structure IsSqlCall (node : Node) : Prop where
  connection : node.Has .connection IsName
  sql : node.Has .sql IsRaw

inductive IsExpression : Node → Prop
  | text {node : Node} (h : IsText node) : IsExpression node
  | connection {node : Node} (hk : node.kind = .connection) (hu : node.Has .url IsBasic)
      (hp : node.MayHave .properties (Node.All · IsProperty)) : IsExpression node
  | query {node : Node} (hk : node.kind = .query) (h : IsSqlCall node) : IsExpression node
  | scriptResult {node : Node} (hk : node.kind = .scriptResult) (h : IsScriptCall node) :
      IsExpression node

inductive IsDeclaration : Node → Prop
  | mk {node : Node} (hk : (Run.declarationKind? node.kind).isSome) (hn : node.Has .name IsName)
      (hd : node.MayHave .description fun child =>
        child.kind = .shortDescription ∨ IsText child)
      (hi : ∀ child ∈ node.children, (Run.declarationKind? child.2.kind).isSome →
        IsDeclaration child.2) : IsDeclaration node

structure IsCommand (node : Node) : Prop where
  title : node.Has .title IsText
  parameters : node.MayHave .parameters (Node.All · IsParameter)
  body : node.Has .body IsRaw

structure IsMetadata (node : Node) : Prop where
  connection : node.Has .connection IsName
  info : ∀ field ∈ Field.archiveInfo, node.MayHave field IsText
  schemas : node.All fun child => child.kind = .siardSchema → IsDeclaration child
  commands : node.All fun child => child.kind = .commandDeclaration → IsCommand child

def blockPlaces : Kind → List Field
  | .forLoop => [.body]
  | .conditional => [.consequent, .alternative]
  | _ => []

theorem blockPlaces_cases (kind : Kind) :
    blockPlaces kind = [] ∨ kind = .forLoop ∨ kind = .conditional := by
  cases kind <;> simp [blockPlaces]

inductive IsStatement : Node → Prop
  | nop {node : Node} (hk : node.kind = .nop) : IsStatement node
  | parameters {node : Node} (hk : node.kind = .parameters) (hp : node.All IsParameter) :
      IsStatement node
  | set {node : Node} (hk : node.kind = .set) (hn : node.Has .name IsName)
      (hv : node.Has .value IsExpression) : IsStatement node
  | executeUsing {node : Node} (hk : node.kind = .executeUsing) (h : IsScriptCall node) :
      IsStatement node
  | executeSql {node : Node} (hk : node.kind = .executeSql) (h : IsSqlCall node) :
      IsStatement node
  | siardMetadata {node : Node} (hk : node.kind = .siardMetadata) (h : IsMetadata node) :
      IsStatement node
  | siardOutput {node : Node} (hk : node.kind = .siardOutput)
      (hc : node.Has .connection IsName) (hf : node.Has .file IsText) : IsStatement node
  | log {node : Node} (hk : node.kind = .log) (hv : node.Has .value IsText) : IsStatement node
  | assert {node : Node} (hk : node.kind = .assert) (hc : node.Has .condition IsComparison) :
      IsStatement node
  | forLoop {node body : Node} (hk : node.kind = .forLoop)
      (hn : node.Has .loopVariables (Node.All · IsName)) (hr : node.Has .rows IsBasic)
      (hb : node.field? .body = some body) (h : ∀ child ∈ body.children, IsStatement child.2) :
      IsStatement node
  | conditional {node consequent : Node} (hk : node.kind = .conditional)
      (hc : node.Has .condition IsComparison) (ht : node.field? .consequent = some consequent)
      (h : ∀ child ∈ consequent.children, IsStatement child.2)
      (he : ∀ alternative, node.field? .alternative = some alternative →
        ∀ child ∈ alternative.children, IsStatement child.2) : IsStatement node

structure IsScript (tree : Node) : Prop where
  kind : tree.kind = .sourceFile
  statements : tree.All IsStatement

section

variable {node : Node}

def IsStringPiece (piece : Node) : Prop :=
  piece.kind ∈ stringKinds ∧ (piece.kind = .interpolation → piece.Wraps IsBasic)

theorem IsBasic.of_pieces (hk : node.kind = .string) (h : node.All IsStringPiece) :
    IsBasic node := by
  refine .string hk (fun piece hp => (h piece hp).1) (fun piece hp hi => ?_) ?_
  · obtain ⟨value, hv, _⟩ := (h piece hp).2 hi
    exact Option.isSome_iff_exists.2 ⟨value, hv⟩
  · intro piece hp value hi hv
    obtain ⟨found, hf, hb⟩ := (h piece hp).2 hi
    rw [hv] at hf
    obtain rfl := Option.some.inj hf
    exact hb

theorem IsBasic.kind_mem (h : IsBasic node) : node.kind ∈ basicKinds := by
  cases h with
  | string hk | integer hk | variableInstance hk | operation hk => simp [hk, basicKinds]

theorem IsText.basic (h : IsText node) (hk : node.kind ≠ .raw) : IsBasic node :=
  h.resolve_left fun hr => hk hr.kind

theorem IsText.raw (h : IsText node) (hk : node.kind = .raw) : IsRaw node :=
  h.resolve_right fun hb => by simpa [hk, basicKinds] using hb.kind_mem

end

end Grammar

end ArchiveScript
