import ArchiveScript.Proofs.Printing.Document
import ArchiveScript.Proofs.Run.Ensures
import ArchiveScript.Proofs.Run.Recursion

/-! # Assignments by their trees

What an assignment does can be told from its tree without spans: it binds its name to what its
value comes to.
-/

namespace ArchiveScript

namespace Node

theorem kind_bare (node : Node) : node.bare.kind = node.kind := by cases node; rfl

theorem text_bare (node : Node) : node.bare.text = node.text := by cases node; rfl

theorem children_bare (node : Node) : node.bare.children = bares node.children := by
  cases node; rfl

theorem field?_bare (node : Node) (field : Field) :
    node.bare.field? field = (node.field? field).map bare := by
  rw [field?, children_bare, bares_eq_map, List.find?_map, field?]
  simp [Function.comp_def]

theorem field?_of_bare {node tree child : Node} (field : Field) (h : node.bare = tree)
    (hc : tree.field? field = some child) :
    ∃ found, node.field? field = some found ∧ found.bare = child := by
  rw [← h, field?_bare] at hc
  exact Option.map_eq_some_iff.1 hc

theorem exists_of_bares_cons {children : List Child} {place : Option Field} {tree : Node}
    {trees : List Child} (h : bares children = (place, tree) :: trees) :
    ∃ node rest, children = (place, node) :: rest ∧ node.bare = tree ∧ bares rest = trees := by
  cases children with
  | nil => cases h
  | cons child rest =>
    cases h
    exact ⟨child.2, rest, rfl, rfl, rfl⟩

theorem exists_sole_of_bare {node tree : Node} {kind : Kind} {place : Option Field}
    (h : node.bare = Node.branch kind [(place, tree)]) :
    ∃ child, node.children = [(place, child)] ∧ child.bare = tree := by
  have hc : bares node.children = [(place, tree)] := by
    rw [← children_bare, h]
    rfl
  obtain ⟨child, rest, hc, hb, hr⟩ := exists_of_bares_cons hc
  rw [bares_eq_map, List.map_eq_nil_iff] at hr
  exact ⟨child, by rw [hc, hr], hb⟩

end Node

namespace Run

open Eval Node

variable {η κ : Type} [Cursor κ] [Host η κ] {settings : Settings} {block : Node → Eval η κ Unit}
  {node tree : Node} {name : Printing.Name} {value : Value} {world after : World η κ}
  {entries : Dict Value} {outer : List Frame}

def assignment (name : Printing.Name) (value : Node) : Node :=
  Node.branch .set [(some .name, name.tree), (some .value, value)]

theorem assignment_kind (h : node.bare = assignment name tree) : node.kind = .set := by
  rw [← kind_bare, h]
  rfl

theorem assignment_name (h : node.bare = assignment name tree) :
    ∃ place, node.field? .name = some place ∧ place.kind = .identifier ∧
      place.text = String.ofList name.print := by
  have hf : (assignment name tree).field? .name = some name.tree := rfl
  obtain ⟨place, hp, hb⟩ := field?_of_bare .name h hf
  refine ⟨place, hp, ?_, ?_⟩
  · rw [← kind_bare, hb]
    rfl
  · rw [← text_bare, hb]
    rfl

theorem assignment_value (h : node.bare = assignment name tree) :
    ∃ source, node.field? .value = some source ∧ source.bare = tree :=
  field?_of_bare .value h rfl

theorem assignment_run (hb : node.bare = assignment name tree)
    (hv : ∀ child, child.bare = tree → expression settings child world = (.ok value, after))
    (hs : after.scope = ⟨.bindings entries, outer⟩) :
    statementWith settings block node world =
      (.ok (), { after with
        scope := ⟨.bindings (entries.insert (String.ofList name.print) value), outer⟩ }) := by
  obtain ⟨place, hp, hpk, hpt⟩ := assignment_name hb
  obtain ⟨source, hf, hfb⟩ := assignment_value hb
  rw [statementWith, assignment_kind hb, orAt]
  dsimp only
  rw [set, run_need hp, run_identifier hpk, run_need hf, run_bind, hv source hfb, hpt]
  dsimp only
  rw [bind_run hs]

/-- A script that sets a variable has an assignment, whatever texts are lost. -/
theorem exists_of_fades_assignment {source : List Char}
    (h : node.Fades source (Node.branch .sourceFile [(none, assignment name tree)])) :
    ∃ root line place shown child, node = .mk .sourceFile root "" [(none, .mk .set line ""
      [(some .name, .mk .identifier place shown []), (some .value, child)])] ∧
      child.Fades source tree := by
  obtain ⟨root, items, rfl, hitems⟩ := h.exists_branch
  obtain ⟨item, _, rfl, hitem, hnone⟩ := hitems.exists_cons
  cases hnone
  obtain ⟨line, fields, rfl, hfields⟩ := hitem.exists_branch
  obtain ⟨place, _, rfl, hplace, hvalues⟩ := hfields.exists_cons
  obtain ⟨child, _, rfl, hchild, hnone⟩ := hvalues.exists_cons
  cases hnone
  obtain ⟨span, shown, rfl⟩ := hplace.exists_terminal
  exact ⟨root, line, span, shown, child, rfl, hchild⟩

theorem resolve_of_empty_text {root line place : Span} {shown : String} {child : Node}
    (hv : expression settings child world = (.ok (.text ""), world))
    (hs : world.scope = .root) (other : String) {text : String} (ht : text ≠ "") :
    (script settings (.mk .sourceFile root "" [(none, .mk .set line ""
      [(some .name, .mk .identifier place shown []), (some .value, child)])])
      world).2.scope.resolve other ≠ some (.text text) := by
  have hset : set settings (.mk .set line ""
      [(some .name, .mk .identifier place shown []), (some .value, child)]) world =
        (.ok (), { world with scope := ⟨.bindings (Dict.empty.insert shown (.text "")), []⟩ }) := by
    rw [set, run_need rfl, run_identifier rfl, run_need rfl, run_bind, hv]
    exact bind_run hs shown (.text "")
  rw [script_eq settings rfl]
  dsimp only [Node.children]
  rw [statements_singleton, statementWith, orAt]
  dsimp only [Node.kind]
  rw [hset]
  intro h
  have hg : (Dict.empty.insert shown (Value.text "")).get? other = some (.text text) := by
    simpa [Scope.resolve, Scope.frames, Frame.get?] using h
  rw [Dict.get?_insert] at hg
  split at hg
  · injection Option.some.inj hg with he
    exact ht he.symm
  · cases hg

end Run

end ArchiveScript
