/-! # Cursors

A cursor stands before, on or after the rows of a query's result, which are numbered from one.
Each of its operations can fail, and can move the cursor even so. A cursor is anything that has
these operations; here are one over a table and one that fails on purpose.
-/

namespace ArchiveScript

/-- A message from outside that something failed. -/
structure HostError where
  message : String
  deriving DecidableEq, Repr

/-- A row of cells, some of which may be without a value. -/
abbrev Row := List (Option String)

/-- An operation on a state that may fail; the state changes in both cases. -/
abbrev Act (σ : Type) := ExceptT HostError (StateM σ)

theorem act_bind {σ α β : Type} (x : Act σ α) (f : α → Act σ β) (state : σ) :
    (x >>= f) state =
      match x state with
      | (.ok a, state) => f a state
      | (.error error, state) => (.error error, state) := by
  have h : (x >>= f) state = ExceptT.bindCont f (x state).1 (x state).2 := rfl
  rw [h]
  rcases x state with ⟨_ | _, _⟩ <;> rfl

class Cursor (κ : Type) where
  columnCount : κ → Nat
  /-- Goes before the first row. -/
  beforeFirst : Act κ Unit
  /-- Goes to the next row, if there is one. -/
  advance : Act κ Bool
  /-- A cell of the current row; cells are numbered from zero. -/
  cell (column : Nat) : Act κ (Option String)
  /-- The number of the current row, or zero if there is none. -/
  row : Act κ Nat
  /-- Goes to the last row, if there is one. -/
  last : Act κ Bool
  /-- Goes to a row, if it exists. -/
  absolute (row : Nat) : Act κ Bool
  /-- The most rows that one traversal visits. -/
  rowLimit : κ → Nat

/-- A cursor over rows that are at hand. -/
structure TableCursor where
  columns : Nat
  rows : Array Row
  /-- Zero before the first row, one more than the number of rows after the last. -/
  position : Nat := 0
  deriving DecidableEq, Repr

namespace TableCursor

def current? (cursor : TableCursor) : Option Row :=
  match cursor.position with
  | 0 => none
  | index + 1 => cursor.rows[index]?

def goto (cursor : TableCursor) (position : Nat) : TableCursor :=
  { cursor with position := min position (cursor.rows.size + 1) }

def fetch (cursor : TableCursor) (column : Nat) : Except HostError (Option String) :=
  match cursor.current? with
  | none => .error ⟨"the cursor is not on a row"⟩
  | some row =>
    if cursor.columns ≤ column then .error ⟨"no column " ++ toString (column + 1)⟩
    else .ok ((row[column]?).getD none)

instance : Cursor TableCursor where
  columnCount := columns
  beforeFirst := modify (·.goto 0)
  advance := do
    modify fun cursor => cursor.goto (cursor.position + 1)
    return (← get).current?.isSome
  cell column := do
    match (← get).fetch column with
    | .ok cell => return cell
    | .error error => throw error
  row := do
    let cursor ← get
    return if cursor.current?.isSome then cursor.position else 0
  last := do
    modify fun cursor => cursor.goto cursor.rows.size
    return !(← get).rows.isEmpty
  absolute row := do
    modify (·.goto row)
    return (← get).current?.isSome
  rowLimit cursor := cursor.rows.size

end TableCursor

/-- The operations of a cursor that can be made to fail. -/
inductive CursorMethod where
  | beforeFirst
  | advance
  | cell
  | row
  | last
  | absolute
  deriving DecidableEq, Repr

/-- Calls of `method` succeed `after` times and then fail with `message`. -/
structure CursorFault where
  method : CursorMethod
  after : Nat
  message : String
  deriving DecidableEq, Repr

/-- A cursor one of whose operations may fail on purpose. -/
structure FaultyCursor (κ : Type) where
  inner : κ
  fault : Option CursorFault

namespace FaultyCursor

variable {κ : Type}

/-- Calls an operation of the cursor inside, unless it is to fail. -/
def call (method : CursorMethod) (operation : Act κ α) : Act (FaultyCursor κ) α := fun cursor =>
  let pass (fault : Option CursorFault) : Except HostError α × FaultyCursor κ :=
    let (result, inner) := operation cursor.inner
    (result, ⟨inner, fault⟩)
  match cursor.fault with
  | some fault =>
    if fault.method = method then
      match fault.after with
      | 0 => (.error ⟨fault.message⟩, cursor)
      | after + 1 => pass (some { fault with after })
    else pass cursor.fault
  | none => pass none

instance [Cursor κ] : Cursor (FaultyCursor κ) where
  columnCount cursor := Cursor.columnCount cursor.inner
  beforeFirst := call .beforeFirst Cursor.beforeFirst
  advance := call .advance Cursor.advance
  cell column := call .cell (Cursor.cell column)
  row := call .row Cursor.row
  last := call .last Cursor.last
  absolute row := call .absolute (Cursor.absolute row)
  rowLimit cursor := Cursor.rowLimit cursor.inner

end FaultyCursor

end ArchiveScript
