import Mathlib
import ArchiveScript.Proofs.Run.Follows
import ArchiveScript.Proofs.Run.Parameters
import ArchiveScript.Run.Rehearsal

/-! # Commands keep their parameters

A command binds its parameters to the values that they have for the script, but its body is written
with the names. So what is kept of a command does not depend on the values, except in its title.
-/

namespace ArchiveScript

namespace Dict

variable {α : Type}

theorem get?_ofList_const (f : String → α) (keys : List String) (key : String) :
    (ofList (keys.map fun key => (key, f key))).get? key =
      if key ∈ keys then some (f key) else none := by
  have hfold (dict : Dict α) : ((keys.map fun key => (key, f key)).foldl
      (fun dict entry => dict.insert entry.1 entry.2) dict).get? key =
        if key ∈ keys then some (f key) else dict.get? key := by
    induction keys generalizing dict with
    | nil => simp
    | cons first rest ih =>
      rw [List.map_cons, List.foldl_cons, ih, get?_insert]
      by_cases hf : key = first
      · subst hf
        simp
      · simp [hf]
  exact hfold empty

end Dict

namespace Scope

def isWritable (scope : Scope) : Bool :=
  match scope.inner with
  | .bindings _ => true
  | .parameters _ => false

/-- The scope with the names bound to the placeholders that they are written as. -/
def spelled (scope : Scope) (names : List String) : Scope :=
  ⟨.bindings (.ofList (names.map fun name => (name, .text (Value.placeholder name)))),
    scope.frames⟩

theorem resolve_command (scope : Scope) (names : List String) (name : String) :
    (scope.command names).resolve name =
      if name ∈ names then some (.parameter name) else scope.resolve name := by
  simp only [resolve, command, frames, List.findSome?_cons, Frame.get?]
  by_cases h : name ∈ names <;> simp [h]

theorem resolve_spelled (scope : Scope) (names : List String) (name : String) :
    (scope.spelled names).resolve name =
      if name ∈ names then some (.text (Value.placeholder name)) else scope.resolve name := by
  simp only [resolve, spelled, frames, List.findSome?_cons, Frame.get?, Dict.get?_ofList_const]
  by_cases h : name ∈ names <;> simp [h]

end Scope

namespace Run

open Eval

variable {η κ : Type}

def declaredNames (node : Node) : List String :=
  ((node.field? .parameters).map parameterNames).getD []

/-- The names outside the list stand for the same values in both states, with the same rows.
Besides, variables can be bound in both states or in neither; the only scope in which none can be
bound is that of the body of a command, where no command is declared. -/
structure AgreeOutside (names : List String) (world world' : World η κ) : Prop where
  resolve : ∀ name ∉ names, world'.scope.resolve name = world.scope.resolve name
  rows : ∀ name ∉ names, ∀ id, world.scope.resolve name = some (.rows id) →
    ∃ rows, world.rows.get? id = some rows ∧ world'.rows.get? id = some rows
  writable : world'.scope.isWritable = world.scope.isWritable

variable [Cursor κ]

def commandTitle (node : Node) : Eval η κ String := do
  text (← get).scope "The command title" (← node.need .title)

def commandParameters (settings : Settings) (node : Node) :
    Eval η κ (List (Outline CommandKind)) :=
  match node.field? .parameters with
  | some list => parameters settings list
  | none => pure []

/-- The text of a command, which is written in the scope that its body gets. -/
def commandBody (inside : Scope → Scope) (node : Node) : Eval η κ String := do
  let scope := inside (← get).scope
  return (← raw scope .command (← node.need .body)).text

theorem command_eq (settings : Settings) (node : Node) :
    (command settings node : Eval η κ (Outline CommandKind)) = (do
      let title ← commandTitle node
      let entries ← commandParameters settings node
      let sql ← commandBody (·.command (entries.map Outline.name)) node
      return .mk .command "" title (entries ++ [.leaf .sql "" sql])) := by
  simp only [command, commandTitle, commandParameters, commandBody, bind_assoc, pure_bind]
  refine bind_congr fun world => bind_congr fun titleNode => bind_congr fun title => ?_
  cases node.field? .parameters <;> simp

/-- The names outside the list stand for the same values, and the rows that these hold come to the
same numbers. -/
structure Level (names : List String) (held : RowsId → Prop) (world world' : World η κ) : Prop where
  resolve : ∀ name ∉ names, world'.scope.resolve name = world.scope.resolve name
  holds : ∀ name ∉ names, ∀ id, world.scope.resolve name = some (.rows id) → held id
  writable : world'.scope.isWritable = world.scope.isWritable
  rows : world.rows.Alike held world'.rows

theorem AgreeOutside.level {names : List String} {world world' : World η κ}
    (h : AgreeOutside names world world') :
    Level names (fun id => ∃ name ∉ names, world.scope.resolve name = some (.rows id)) world
      world' := by
  refine ⟨h.resolve, fun name hn id hr => ⟨name, hn, hr⟩, h.writable, ?_⟩
  rintro id ⟨name, hn, hr⟩
  obtain ⟨rows, hg, hg'⟩ := h.rows name hn id hr
  exact ⟨rows.measure.1, by rw [RowsStore.measured, hg]; rfl, by rw [RowsStore.measured, hg']; rfl⟩

theorem counts_remembers : Counts
    (fun world after : World η κ => after.scope = world.scope ∧
      world.rows.Remembers after.rows)
    (fun _ _ => True) where
  refl _ := ⟨rfl, .refl _⟩
  stay _ := trivial
  trans hb ha := ⟨ha.1.trans hb.1, hb.2.trans ha.2⟩
  fall _ _ := trivial
  add _ _ := ⟨rfl, RowsStore.remembers_add _ _⟩
  size _ _ _ _ hs := ⟨rfl, RowsStore.remembers_size hs⟩
  unsized _ _ _ _ _ := trivial

namespace Level

variable {names : List String} {held : RowsId → Prop} {world world' after after' : World η κ}

theorem grow (h : Level names held world world') (hs : after.scope = world.scope)
    (hs' : after'.scope = world'.scope) (hr : world.rows.Remembers after.rows)
    (hr' : world'.rows.Remembers after'.rows) : Level names held after after' where
  resolve := by rw [hs, hs']; exact h.resolve
  holds := by rw [hs]; exact h.holds
  writable := by rw [hs, hs']; exact h.writable
  rows := h.rows.grow hr hr'

/-- In the body of a command, the names that are left stand for the same values. -/
theorem stands (h : Level names held world world') :
    (world.scope.command names).Stands false held (world'.scope.command names) := by
  intro name
  rw [Scope.resolve_command, Scope.resolve_command]
  split
  · exact .some (.same nofun)
  · rename_i hn
    rw [h.resolve name hn]
    cases hv : world.scope.resolve name with
    | none => exact .none
    | some value =>
      exact .some (.same fun id hi => h.holds name hn id (hv.trans (congrArg some hi)))

theorem stands_spelled (h : Level names held world world') :
    (world.scope.command names).Stands true held (world.scope.spelled names) := by
  intro name
  rw [Scope.resolve_command, Scope.resolve_spelled]
  split
  · exact .some (.placeholder rfl name)
  · rename_i hn
    cases hv : world.scope.resolve name with
    | none => exact .none
    | some value =>
      exact .some (.same fun id hi => h.holds name hn id (hv.trans (congrArg some hi)))

end Level

end Run

namespace Scope

/-- The operation changes at most what the name stands for, and only where names can be bound. -/
def ChangesOnly (name : String) (operation : Scope → Except ScopeError Scope) : Prop :=
  ∀ scope, match operation scope with
    | .ok after => scope.isWritable = true ∧ after.isWritable = true ∧
      ∀ other ≠ name, after.resolve other = scope.resolve other
    | .error error => scope.isWritable = false ∧ error = .readOnly name

theorem ChangesOnly.of_writable {name : String} {operation : Scope → Except ScopeError Scope}
    (h : ChangesOnly name operation) {scope : Scope} (hw : scope.isWritable = true) :
    ∃ after, operation scope = .ok after ∧ after.isWritable = true ∧
      ∀ other ≠ name, after.resolve other = scope.resolve other := by
  have ho := h scope
  cases hr : operation scope with
  | ok after =>
    rw [hr] at ho
    exact ⟨after, rfl, ho.2⟩
  | error error =>
    rw [hr] at ho
    cases hw.symm.trans ho.1

theorem ChangesOnly.of_readOnly {name : String} {operation : Scope → Except ScopeError Scope}
    (h : ChangesOnly name operation) {scope : Scope} (hw : scope.isWritable = false) :
    operation scope = .error (.readOnly name) := by
  have ho := h scope
  cases hr : operation scope with
  | ok after =>
    rw [hr] at ho
    cases hw.symm.trans ho.1
  | error error =>
    rw [hr] at ho
    exact congrArg _ ho.2

theorem changesOnly_bind (name : String) (value : Value) :
    ChangesOnly name (·.bind name value) := by
  rintro ⟨_ | _, outer⟩
  · exact ⟨rfl, rfl, fun other ho => by simp [resolve, frames, List.findSome?_cons, Frame.get?, ho]⟩
  · exact ⟨rfl, rfl⟩

theorem changesOnly_unbind (name : String) : ChangesOnly name (·.unbind name) := by
  rintro ⟨_ | _, outer⟩
  · exact ⟨rfl, rfl, fun other ho => by simp [resolve, frames, List.findSome?_cons, Frame.get?, ho]⟩
  · exact ⟨rfl, rfl⟩

end Scope

namespace Run

open Eval

variable {η κ : Type} [Cursor κ] {names : List String} {held : RowsId → Prop}

/-- Whatever is done to one of the names, nothing is seen of it outside them. -/
theorem onScope_follows {name : String} (hn : name ∈ names)
    {operation operation' : Scope → Except ScopeError Scope}
    (ho : Scope.ChangesOnly name operation) (ho' : Scope.ChangesOnly name operation') :
    Follows false (Level names held) (fun _ _ => Eq) (onScope operation : Eval η κ Unit)
      (onScope operation') := by
  intro world world' h
  rw [Eval.onScope, Eval.onScope]
  cases hw : world.scope.isWritable with
  | false =>
    rw [ho.of_readOnly hw, ho'.of_readOnly (h.writable.trans hw)]
    exact .error
  | true =>
    obtain ⟨after, hr, hs, ha⟩ := ho.of_writable hw
    obtain ⟨after', hr', hs', ha'⟩ := ho'.of_writable (h.writable.trans hw)
    rw [hr, hr']
    have hne {other : String} (hm : other ∉ names) : other ≠ name := fun he => hm (he ▸ hn)
    refine .ok ⟨fun other hm => ?_, fun other hm id hv => ?_, hs'.trans hs.symm, h.rows⟩ rfl
    · exact (ha' other (hne hm)).trans ((h.resolve other hm).trans (ha other (hne hm)).symm)
    · exact h.holds other hm id ((ha other (hne hm)).symm.trans hv)

section

variable (settings settings' : Settings)

theorem bindParameter_follows {parameter : Node}
    (hp : ∀ child, parameter.field? .name = some child → child.text ∈ names) :
    Follows false (Level names held) (fun _ _ => Eq)
      (bindParameter settings parameter : Eval η κ (Outline CommandKind))
      (bindParameter settings' parameter) := by
  have hb {name : String} (hn : name ∈ names) {operation operation'}
      (ho : Scope.ChangesOnly name operation) (ho' : Scope.ChangesOnly name operation')
      (entry : Outline CommandKind) : Follows false (Level names held) (fun _ _ => Eq)
        (onScope operation >>= fun _ => pure entry : Eval η κ (Outline CommandKind))
        (onScope operation' >>= fun _ => pure entry) :=
    (onScope_follows hn ho ho').seq fun _ => .pure fun _ _ => rfl
  unfold bindParameter
  split
  · unfold Node.need
    cases hf : parameter.field? .name with
    | none => exact .failAt _ _
    | some child =>
      unfold Node.identifier
      simp only [pure_bind]
      split
      · simp only [pure_bind]
        split <;> split
        · exact hb (hp child hf) (Scope.changesOnly_bind _ _) (Scope.changesOnly_bind _ _) _
        · exact hb (hp child hf) (Scope.changesOnly_bind _ _) (Scope.changesOnly_unbind _) _
        · exact hb (hp child hf) (Scope.changesOnly_unbind _) (Scope.changesOnly_bind _ _) _
        · exact hb (hp child hf) (Scope.changesOnly_unbind _) (Scope.changesOnly_unbind _) _
      · exact .failAt _ _
  · exact .failAt _ _

theorem bindParameters_follows {list : List Child}
    (hp : ∀ parameter ∈ list, ∀ child, parameter.2.field? .name = some child →
      child.text ∈ names) :
    Follows false (Level names held) (fun _ _ => Eq)
      (bindParameters settings list : Eval η κ (List (Outline CommandKind)))
      (bindParameters settings' list) := by
  induction list with
  | nil => exact .pure fun _ _ => rfl
  | cons parameter rest ih =>
    rw [bindParameters_cons, bindParameters_cons]
    have hf : Follows false (Level names held) (fun _ _ => Eq)
        (bindParameter settings parameter.2 : Eval η κ (Outline CommandKind))
        (bindParameter settings' parameter.2) :=
      bindParameter_follows settings settings' (hp parameter List.mem_cons_self)
    refine hf.seq fun _ => ?_
    exact (ih fun other ho => hp other (List.mem_cons_of_mem parameter ho)).seq fun _ =>
      .pure fun _ _ => rfl

theorem commandParameters_follows (node : Node) :
    Follows false (Level (declaredNames node) held) (fun _ _ => Eq)
      (commandParameters settings node : Eval η κ (List (Outline CommandKind)))
      (commandParameters settings' node) := by
  unfold commandParameters
  cases hl : node.field? .parameters with
  | none => exact .pure fun _ _ => rfl
  | some list =>
    refine bindParameters_follows settings settings' fun parameter hm child hc => ?_
    rw [declaredNames, hl]
    exact List.mem_map.2 ⟨parameter, hm, parameterName_eq hc⟩

omit [Cursor κ] in
theorem commandParameters_names (node : Node) :
    Gives (fun entries => entries.map Outline.name = declaredNames node)
      (commandParameters settings node : Eval η κ (List (Outline CommandKind))) := by
  unfold commandParameters declaredNames
  cases node.field? .parameters with
  | none => exact .pure rfl
  | some list =>
    refine (bindParameters_leaves settings list.children).mono ?_
    rintro _ ⟨described, rfl, hn⟩
    rw [Option.map_some, Option.getD_some, parameterNames, ← hn, List.map_map]
    rfl

theorem commandBody_run (inside : Scope → Scope) (node : Node) (world : World η κ) :
    commandBody inside node world = (do
      return (← raw (inside world.scope) .command (← node.need .body)).text :
        Eval η κ String) world := by
  rw [commandBody, run_bind]
  rfl

/-- The text of a command is the same from levelled states. -/
theorem commandBody_follows (node : Node) {world world' : World η κ}
    (h : Level names held world world') :
    Paired false (AlikeRows held) (fun _ _ => Eq) (commandBody (·.command names) node world)
      (commandBody (·.command names) node world') := by
  rw [commandBody_run, commandBody_run]
  refine Follows.seq (Follows.need _ _) (fun _ => ?_) world world' h.rows
  exact (Follows.raw h.stands _).seq fun _ => .pure fun _ _ => rfl

theorem commandBody_spelled (node : Node) {world world' : World η κ}
    (h : Level names held world world') :
    Paired true (AlikeRows held) (fun _ _ => Eq) (commandBody (·.command names) node world)
      (commandBody (·.spelled names) node world) := by
  have hr : AlikeRows held world world := fun id hid => by
    obtain ⟨outcome, hm, -⟩ := h.rows id hid
    exact ⟨outcome, hm, hm⟩
  rw [commandBody_run, commandBody_run]
  refine Follows.seq (Follows.need _ _) (fun _ => ?_) world world hr
  exact (Follows.raw h.stands_spelled _).seq fun _ => .pure fun _ _ => rfl

end

/-- What is kept of a command does not depend on what its parameters stand for where it is declared,
nor on the values that they are given: if all other names stand for the same, and the title is the
same, the command is, or it fails in the same way. The text of a command is the one that is written
where each parameter stands for its placeholder. -/
theorem command_independent (settings settings' : Settings) (node : Node) (world world' : World η κ)
    (hw : AgreeOutside (declaredNames node) world world')
    (ht : (commandTitle node world').1 = (commandTitle node world).1) :
    (command settings' node world').1 = (command settings node world).1 ∧
      ∀ entry ended, command settings node world = (.ok entry, ended) →
        ∃ title titled parameters ready sql after,
          commandTitle node world = (.ok title, titled) ∧
          commandParameters settings node titled = (.ok parameters, ready) ∧
          parameters.map Outline.name = declaredNames node ∧
          commandBody (·.spelled (declaredNames node)) node ready = (.ok sql, after) ∧
          entry = .mk .command "" title (parameters ++ [.leaf .sql "" sql]) := by
  have hm : Moves (fun world after => after.scope = world.scope ∧ world.rows.Remembers after.rows)
      (fun _ _ => True) (commandTitle node : Eval η κ String) :=
    counts_remembers.seq counts_remembers.get fun _ =>
      counts_remembers.seq (counts_remembers.need _ _) fun _ => counts_remembers.text _ _ _
  rw [command_eq, command_eq, run_bind, run_bind]
  rcases htitle : commandTitle node world with ⟨outcome, titled⟩
  rcases htitle' : commandTitle node world' with ⟨outcome', titled'⟩
  rw [htitle, htitle'] at ht
  obtain rfl : outcome' = outcome := ht
  cases outcome' with
  | error failure => exact ⟨rfl, nofun⟩
  | ok title =>
    have hl := hw.level.grow (hm.ok htitle).1 (hm.ok htitle').1 (hm.ok htitle).2 (hm.ok htitle').2
    have hp := commandParameters_follows settings settings' node titled titled' hl
    dsimp only
    rw [run_bind, run_bind]
    rcases hp.cases_exact with ⟨failure, after, after', he, he'⟩ |
      ⟨parameters, _, ready, ready', he, he', hready, rfl⟩
    · rw [he, he']
      exact ⟨rfl, nofun⟩
    have hn := (commandParameters_names settings node).ok he
    rw [he, he']
    dsimp only
    rw [run_bind, run_bind, hn]
    rcases (commandBody_follows node hready).cases_exact with ⟨failure, after, after', hb, hb'⟩ |
      ⟨sql, _, after, after', hb, hb', -, rfl⟩
    · rw [hb, hb']
      exact ⟨rfl, nofun⟩
    have hs := commandBody_spelled node hready
    rw [hb] at hs
    obtain ⟨_, spelled, hs, rfl⟩ := hs.exists_ok
    rw [hb, hb']
    refine ⟨rfl, fun entry ended h => ?_⟩
    obtain ⟨h, -⟩ := Prod.mk.inj h
    exact ⟨title, titled, parameters, ready, sql, spelled, rfl, he, hn, hs,
      (Except.ok.inj h).symm⟩

def interpolationOfP (kind : Kind) : Node :=
  .mk kind (.point 0) "" [(none, .mk .variableInstance (.point 0) ""
    [(none, .mk .identifier (.point 0) "p" [])])]

/-- A command with a parameter `p`, which its body has plain, in the safe form and in a string. -/
def commandOfP : Node :=
  .mk .commandDeclaration (.point 0) ""
    [(some .title, .mk .raw (.point 0) "" [(none, .mk .rawContent (.point 0) "T" [])]),
      (some .parameters, .mk .parameters (.point 0) ""
        [(none, .mk .parameter (.point 0) ""
          [(some .name, .mk .identifier (.point 0) "p" [])])]),
      (some .body, .mk .raw (.point 0) ""
        [(none, interpolationOfP .interpolation), (none, interpolationOfP .safeInterpolation),
          (none, .mk .interpolation (.point 0) ""
            [(none, .mk .string (.point 0) "" [(none, interpolationOfP .interpolation)])])])]

/-- A state in which `p` stands for a value and `q` for rows. -/
def withP (value : Value) : World Rehearsal (FaultyCursor TableCursor) where
  host := {}
  scope := ⟨.bindings (.ofList [("p", value), ("q", .rows 0)]), []⟩
  rows := ⟨#[⟨false, .table 1 #[[some "a"]] 1, some 1⟩]⟩

theorem agreeOutside_withP (value value' : Value) :
    AgreeOutside ["p"] (withP value) (withP value') := by
  have hr (value : Value) (name : String) (hn : name ∉ ["p"]) :
      (withP value).scope.resolve name = if name = "q" then some (.rows 0) else none := by
    have hp : name ≠ "p" := by simpa using hn
    by_cases hq : name = "q" <;>
      simp [withP, Scope.resolve, Scope.frames, Dict.ofList, Frame.get?, hp, hq]
  refine ⟨fun name hn => (hr value' name hn).trans (hr value name hn).symm, fun name hn id hi => ?_,
    rfl⟩
  rw [hr value name hn] at hi
  split at hi
  · cases hi
    exact ⟨_, rfl, rfl⟩
  · cases hi

/-- The values before and the values that the parameter is given are not kept. -/
theorem command_independent_plain_and_nested :
    AgreeOutside (declaredNames commandOfP) (withP (.text "old")) (withP (.rows 0)) ∧
      (command ⟨.ofList [("p", "secret")], "/work"⟩ commandOfP (withP (.rows 0))).1 =
        (command ⟨.empty, "/work"⟩ commandOfP (withP (.text "old"))).1 ∧
      (command ⟨.empty, "/work"⟩ commandOfP (withP (.text "old"))).1 = .ok (.mk .command "" "T"
        [.leaf .parameter "p" "", .leaf .sql ""
          (Value.placeholder "p" ++ Value.placeholder "p" ++ Value.placeholder "p")]) := by
  have ha := agreeOutside_withP (.text "old") (.rows 0)
  have ht : (commandTitle commandOfP (withP (.rows 0))).1 =
      (commandTitle commandOfP (withP (.text "old"))).1 := by cbv
  refine ⟨ha, ?_, by cbv⟩
  exact (command_independent ⟨.empty, "/work"⟩ ⟨.ofList [("p", "secret")], "/work"⟩ commandOfP
    _ _ ha ht).1

end Run

end ArchiveScript
