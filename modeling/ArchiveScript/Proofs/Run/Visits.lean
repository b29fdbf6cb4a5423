import ArchiveScript.Proofs.Run.Parts

/-! # The statements that a run comes to

A run comes to statements one after the other, and each of them finds the state that those before
it have left. The body of a loop is visited once for each round, and of the branches of a condition
the one that it chooses. Where a statement fails, nothing is visited after it.
-/

namespace ArchiveScript.Run

open Eval

variable {η κ : Type}

/-- A statement that a run comes to, with the state that the run has then. -/
structure Visit (η κ : Type) where
  node : Node
  world : World η κ

/-- The statements that a part of a run comes to, from each state, in order. -/
abbrev Visits (η κ : Type) := World η κ → List (Visit η κ)

def Visits.after {α : Type} (x : Eval η κ α) (rest : α → Visits η κ) : Visits η κ := fun world =>
  match x world with
  | (.ok a, between) => rest a between
  | (.error _, _) => []

structure Loop where
  names : List String
  rows : RowsId
  body : Node

section

variable [Cursor κ]

def loopHead (node : Node) : Eval η κ Loop := do
  let names ← (← node.need .loopVariables).children.mapM fun child => child.2.identifier
  let rowsNode ← node.need .rows
  let source ← basic (← get).scope rowsNode
  let rows ← orAt rowsNode.span (settle (source.expectRows "The loop source"))
  return ⟨names, rows, ← node.need .body⟩

theorem forLoop_eq (run : Node → Eval η κ Unit) (node : Node) :
    forLoop run node = loopHead node >>= fun loop =>
      locking loop.rows (get >>= fun now =>
        forRows loop.rows loop.names (run loop.body) (now.rows.roundLimit loop.rows)) := by
  simp only [forLoop, loopHead, bind_assoc, pure_bind]

def nextRound (loop : Loop) : Eval η κ Bool := do
  match ← onRows (·.next loop.rows) with
  | none => return false
  | some row =>
    bindCells loop.names row
    return true

theorem forRows_succ (loop : Loop) (body : Eval η κ Unit) (rounds : Nat) :
    forRows loop.rows loop.names body (rounds + 1) = nextRound loop >>= fun more =>
      if more then body >>= fun _ => forRows loop.rows loop.names body rounds else pure () := by
  rw [forRows, nextRound, bind_assoc]
  refine bind_congr fun next => ?_
  cases next <;> simp

def branch (node : Node) : Eval η κ (Option Node) := do
  if ← comparison (← get).scope (← node.need .condition) then
    return some (← node.need .consequent)
  else return node.field? .alternative

theorem conditional_eq (run : Node → Eval η κ Unit) (node : Node) :
    conditional run node = branch node >>= fun chosen =>
      match chosen with
      | some block => run block
      | none => pure () := by
  simp only [conditional, branch, bind_assoc]
  refine bind_congr fun condition => bind_congr fun world => bind_congr fun holds => ?_
  cases holds with
  | true => simp
  | false => cases node.field? .alternative <;> rfl

theorem loopHead_body (node : Node) :
    Gives (node.field? .body = some ·.body) (loopHead node : Eval η κ Loop) := by
  refine .seq fun _ => .seq fun _ => .seq fun _ => .seq fun _ => .seq fun _ => .seq fun _ => ?_
  exact (Gives.need _ _).bind fun _ hb => .pure hb

theorem branch_block (node : Node) :
    Gives (fun chosen => ∀ block, chosen = some block → ∃ field, node.field? field = some block)
      (branch node : Eval η κ (Option Node)) := by
  refine .seq fun _ => .seq fun _ => .seq fun holds => ?_
  split
  · refine (Gives.need _ _).bind fun chosen hb => .pure ?_
    rintro block ⟨⟩
    exact ⟨_, hb⟩
  · exact .pure fun block hb => ⟨_, hb⟩

variable [Host η κ] (settings : Settings)

/-- What the rounds of a loop visit, where `body` is what its body visits. -/
def roundVisits (loop : Loop) (body : Visits η κ) : Nat → Visits η κ
  | 0 => fun _ => []
  | rounds + 1 => .after (nextRound loop) fun more world =>
    if more then
      body world ++ Visits.after (block settings loop.body)
        (fun _ => roundVisits loop body rounds) world
    else []

section

-- What the blocks inside a statement visit.
variable (inner : Node → Visits η κ)

def insideVisits (node : Node) : Visits η κ :=
  match node.kind with
  | .forLoop => .after (loopHead node) fun loop => .after (onRows (·.lock loop.rows)) fun _ world =>
    roundVisits settings loop (inner loop.body) (world.rows.roundLimit loop.rows) world
  | .conditional => .after (branch node) fun chosen =>
    match chosen with
    | some block => inner block
    | none => fun _ => []
  | _ => fun _ => []

def statementVisits : List Child → Visits η κ
  | [] => fun _ => []
  | (_, node) :: rest => fun world =>
    ⟨node, world⟩ :: insideVisits settings inner node world ++
      Visits.after (statementWith settings (block settings) node)
        (fun _ => statementVisits rest) world

end

def visitsWithin : Nat → Node → Visits η κ
  | 0, _ => fun _ => []
  | height + 1, node => statementVisits settings (visitsWithin height) node.children

def visits (node : Node) : Visits η κ := visitsWithin settings node.height node

def scriptVisits (tree : Node) : Visits η κ :=
  if tree.kind = .sourceFile then visits settings tree else fun _ => []

section

variable {f g : Node → Visits η κ} {node : Node}

omit [Cursor κ] [Host η κ] in
theorem Visits.after_congr {α : Type} {x : Eval η κ α} {f g : α → Visits η κ}
    (h : ∀ a world between, x world = (.ok a, between) → f a = g a) :
    Visits.after x f = Visits.after x g := by
  funext world
  unfold Visits.after
  rcases hx : x world with ⟨_ | a, between⟩
  · rfl
  · exact congrFun (h a world between hx) between

/-- Nothing is visited inside a statement without blocks. -/
theorem insideVisits_flat (hk : Grammar.blockPlaces node.kind = []) :
    insideVisits settings f node = fun _ => [] := by
  unfold insideVisits
  split
  · simp_all [Grammar.blockPlaces]
  · simp_all [Grammar.blockPlaces]
  · rfl

theorem insideVisits_congr (h : ∀ child, child.height < node.height → f child = g child) :
    insideVisits settings f node = insideVisits settings g node := by
  unfold insideVisits
  split
  · refine Visits.after_congr fun loop _ _ hl => ?_
    rw [h loop.body (Node.height_lt_of_field? ((loopHead_body node).ok hl))]
  · refine Visits.after_congr fun chosen _ _ hb => ?_
    cases chosen with
    | none => rfl
    | some block =>
      obtain ⟨field, hf⟩ := (branch_block node).ok hb block rfl
      exact h block (Node.height_lt_of_field? hf)
  · rfl

theorem statementVisits_congr {children : List Child}
    (h : ∀ child ∈ children, ∀ inner, inner.height < child.2.height → f inner = g inner) :
    statementVisits settings f children = statementVisits settings g children := by
  induction children with
  | nil => rfl
  | cons child rest ih =>
    rw [statementVisits, statementVisits,
      insideVisits_congr settings (h child List.mem_cons_self),
      ih fun other ho => h other (List.mem_cons_of_mem child ho)]

/-- A block visits its statements, and inside them what their blocks visit. -/
theorem visits_eq (node : Node) :
    (visits settings node : Visits η κ) =
      statementVisits settings (visits settings) node.children := by
  refine @Node.within_height _ (visitsWithin settings)
    (fun f node => statementVisits settings f node.children) (fun _ _ => rfl) ?_ node
  intro f g node h
  exact statementVisits_congr settings fun child hc inner hi =>
    h inner (Nat.lt_trans hi (Node.height_lt_of_mem hc))

end

end

end ArchiveScript.Run
