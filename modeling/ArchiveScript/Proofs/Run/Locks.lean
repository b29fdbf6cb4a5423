import ArchiveScript.Proofs.Rows.Locks
import ArchiveScript.Proofs.Run.Parts
import ArchiveScript.Run.Rehearsal

/-! # Locks after a run

Whatever a part of a run does and however it ends, it gives back the locks that it takes. The
rows that it takes in are left without a lock.
-/

namespace ArchiveScript.Run

open Eval

def RestoresLocks {η κ α : Type} (eval : Eval η κ α) : Prop :=
  ∀ store : RowsStore κ,
    Ensures (fun world => store.SameLocks world.rows) (fun _ => True) (fun _ => True) eval

/-- The rows that were there have the locks that they had, and new rows have none. -/
def HoldsLocks {η κ : Type} (world after : World η κ) : Prop := world.rows.SameLocks after.rows

section

variable {η κ α : Type}

/-- What runs with rows locked may itself take and give back other locks. -/
theorem HoldsLocks.locking [Cursor κ] {x : Eval η κ α} (h : Moves HoldsLocks HoldsLocks x)
    (id : RowsId) : Moves HoldsLocks HoldsLocks (locking id x) := by
  refine .of_after fun world => ?_
  rw [Eval.locking, run_bind, Eval.onRows]
  rcases world.rows.lock_cases id with ⟨locked, ho, hl⟩ | ⟨_, after, ho, hs⟩
  · rw [ho]
    exact hl.free (h.after { world with rows := locked })
  · rw [ho]
    exact hs

/-- Nothing that a run does changes locks for good. -/
theorem HoldsLocks.admits [Cursor κ] : Admits (HoldsLocks : World η κ → World η κ → Prop) where
  toComposes := .of_trans (fun _ => .refl _) .trans
  outside _ _ _ _ := .refl _
  scope _ _ := .refl _
  add _ _ h := .add h
  size world id := world.rows.sameLocks_size id
  equal world left right := world.rows.sameLocks_equal left right
  locking id h := HoldsLocks.locking (h fun world => world.rows.sameLocks_next id) id

end

namespace RestoresLocks

variable {η κ α : Type} {x : Eval η κ α}

theorem sameLocks (h : RestoresLocks x) (world : World η κ) :
    world.rows.SameLocks (x world).2.rows :=
  (h world.rows world (.refl _)).1

theorem of_moves (h : Moves HoldsLocks HoldsLocks x) : RestoresLocks x :=
  fun _ world hw => ⟨hw.trans (h.after world), by split <;> trivial⟩

theorem moves (h : RestoresLocks x) : Moves HoldsLocks HoldsLocks x := .of_after h.sameLocks

variable [Cursor κ] [Host η κ] (settings : Settings)

theorem statementWith {run : Node → Eval η κ Unit} (hr : ∀ node, RestoresLocks (run node))
    (node : Node) : RestoresLocks (statementWith settings run node) :=
  .of_moves <| HoldsLocks.admits.statementWith settings (fun _ _ _ _ => (hr _).moves) fun _ =>
    HoldsLocks.admits.siardMetadata (fun _ _ => .refl _) settings node

theorem block (node : Node) : RestoresLocks (block settings node : Eval η κ Unit) :=
  .of_moves (HoldsLocks.admits.block settings (fun _ _ => .refl _) node)

theorem script (tree : Node) : RestoresLocks (script settings tree : Eval η κ Unit) := by
  unfold Run.script
  split
  · exact block _ _
  · exact .of_moves (HoldsLocks.admits.failAt _ _)

end RestoresLocks

section

variable {η κ : Type} [Cursor κ] [Host η κ]

/-- However a statement or a block ends, the rows that were there have the locks that they had, and
those that it has taken in have none. So a script leaves no rows locked that its variables hold. -/
theorem locks_restored (settings : Settings) (node : Node) (world : World η κ) (host : η) :
    (∀ eval ∈ [statementWith settings (block settings) node, block settings node],
      (∀ id rows, world.rows.get? id = some rows →
        ∃ rows', (eval world).2.rows.get? id = some rows' ∧ rows'.locked = rows.locked) ∧
      (∀ id rows, world.rows.get? id = none → (eval world).2.rows.get? id = some rows →
        rows.locked = false)) ∧
    ∀ name id rows, (script settings node { host }).2.scope.resolve name = some (.rows id) →
      (script settings node { host }).2.rows.get? id = some rows → rows.locked = false := by
  refine ⟨fun eval he => ?_, fun name id rows _ hr => ?_⟩
  · have hl : RestoresLocks eval := by
      simp only [List.mem_cons, List.not_mem_nil, or_false] at he
      rcases he with rfl | rfl
      · exact RestoresLocks.statementWith settings (RestoresLocks.block settings) node
      · exact RestoresLocks.block settings node
    have hs := hl.sameLocks world
    exact ⟨fun _ _ hr => hs.get?_old hr, fun _ _ hb ha => hs.get?_new hb ha⟩
  · have hs := (RestoresLocks.script settings node).sameLocks ({ host } : World η κ)
    exact hs.get?_new rfl hr

end

def loopOver (name : String) (body : List Child) : Node :=
  .mk .forLoop (.point 0) ""
    [(some .loopVariables, .mk .forVariables (.point 0) "" [(none, .leaf .identifier 0 ['x'])]),
      (some .rows,
        .mk .variableInstance (.point 0) "" [(none, .mk .identifier (.point 0) name [])]),
      (some .body, .mk .statementBlock (.point 0) "" body)]

/-- Two rows values, the first of which is being traversed. -/
def halfLocked : World Rehearsal (FaultyCursor TableCursor) where
  host := {}
  scope := ⟨.bindings (.ofList [("held", .rows 0), ("free", .rows 1)]), []⟩
  rows := ⟨#[⟨true, .table 1 #[[some "a"]] 1, some 1⟩, ⟨false, .table 1 #[[some "b"]] 0, some 1⟩]⟩

/-- A loop fails in its body because the rows there are held; those are still held afterwards, and
the rows of the loop are free again. -/
theorem locks_restored_nested_loop :
    let settings : Settings := ⟨.empty, "/work"⟩
    let loop := loopOver "free" [(none, loopOver "held" [])]
    let ended := statementWith settings (block settings) loop halfLocked
    ended.1 = .error ⟨.nestedIteration, some (.point 0)⟩ ∧
      ∃ held free, ended.2.rows.get? 0 = some held ∧ held.locked = true ∧
        ended.2.rows.get? 1 = some free ∧ free.locked = false := by
  intro settings loop ended
  have h := (locks_restored settings loop halfLocked {}).1 _ List.mem_cons_self
  obtain ⟨held, hh, hl⟩ := h.1 0 _ rfl
  obtain ⟨free, hf, hu⟩ := h.1 1 _ rfl
  exact ⟨rfl, held, free, hh, hl, hf, hu⟩

end ArchiveScript.Run
