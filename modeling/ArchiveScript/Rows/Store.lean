import ArchiveScript.Rows.Basic
import ArchiveScript.Run.Failure

/-! # The store of rows

Rows values are shared: a variable holds the name of its rows, and the store holds the rows. A
traversal of named rows goes on from locking them to freeing them.
-/

namespace ArchiveScript

/-- Why a traversal cannot begin or go on. -/
inductive RowsError where
  | locked
  | cursor (error : HostError)
  deriving DecidableEq, Repr

namespace RowsError

def message : RowsError → String
  | locked => "the rows are already being traversed"
  | cursor error => error.message

def cause : RowsError → Cause
  | locked => .nestedIteration
  | cursor error => .rowsFailed error.message

end RowsError

/-- The rows of a run by their names. -/
structure RowsStore (κ : Type) where
  all : Array (Rows κ)

namespace RowsStore

variable {κ : Type}

def empty : RowsStore κ := ⟨#[]⟩

def get? (store : RowsStore κ) (id : RowsId) : Option (Rows κ) := store.all[id]?

def set (store : RowsStore κ) (id : RowsId) (rows : Rows κ) : RowsStore κ :=
  ⟨store.all.setIfInBounds id rows⟩

/-- Takes in rows under a new name. -/
def add (store : RowsStore κ) (rows : Rows κ) : RowsId × RowsStore κ :=
  (store.all.size, ⟨store.all.push rows⟩)

/-- An operation on rows of the store. -/
def onRows (store : RowsStore κ) (id : RowsId) (default : α)
    (operation : Rows κ → Except HostError α × Rows κ) : Except RowsError α × RowsStore κ :=
  match store.get? id with
  | none => (.ok default, store)
  | some rows =>
    let (result, rows) := operation rows
    (result.mapError .cursor, store.set id rows)

def isLocked (store : RowsStore κ) (id : RowsId) : Bool := (store.get? id).any (·.locked)

def free (store : RowsStore κ) (id : RowsId) : RowsStore κ :=
  match store.get? id with
  | none => store
  | some rows => store.set id { rows with locked := false }

variable [Cursor κ]

def columnCount (store : RowsStore κ) (id : RowsId) : Nat :=
  ((store.get? id).map (·.columnCount)).getD 0

/-- A loop over the rows makes at most this many rounds. One of them finds the end. -/
def roundLimit (store : RowsStore κ) (id : RowsId) : Nat :=
  ((store.get? id).map (·.rowLimit)).getD 0 + 1

/-- Begins a traversal. -/
def lock (store : RowsStore κ) (id : RowsId) : Except RowsError Unit × RowsStore κ :=
  match store.onRows id true Rows.tryLock with
  | (.ok true, store) => (.ok (), store)
  | (.ok false, store) => (.error .locked, store)
  | (.error error, store) => (.error error, store)

/-- The next row of a traversal. -/
def next (store : RowsStore κ) (id : RowsId) : Except RowsError (Option Row) × RowsStore κ :=
  store.onRows id none Rows.next

def size (store : RowsStore κ) (id : RowsId) : Except RowsError Nat × RowsStore κ :=
  store.onRows id 0 Rows.measure

/-- Compares what is left of two traversals row by row. -/
def compareRest (left right : RowsId) : Nat → RowsStore κ → Except RowsError Bool × RowsStore κ
  | 0, store => (.ok false, store)
  | rounds + 1, store =>
    match store.next left with
    | (.error error, store) => (.error error, store)
    | (.ok a, store) =>
      match store.next right with
      | (.error error, store) => (.error error, store)
      | (.ok b, store) =>
        match a, b with
        | none, none => (.ok true, store)
        | some a, some b =>
          if a = b then compareRest left right rounds store else (.ok false, store)
        | _, _ => (.ok false, store)

/-- Whether two rows values hold the same rows. Rows are equal to themselves; others are
traversed together. -/
def equal (left right : RowsId) (store : RowsStore κ) : Except RowsError Bool × RowsStore κ :=
  if left = right then (.ok true, store)
  else match store.lock left with
    | (.error error, store) => (.error error, store)
    | (.ok _, store) =>
      match store.lock right with
      | (.error error, store) => (.error error, store.free left)
      | (.ok _, store) =>
        let (result, store) := compareRest left right (store.roundLimit left) store
        (result, (store.free right).free left)

/-- The rows of a traversal up to its end or to the first failure. -/
def drainRest (id : RowsId) : Nat → RowsStore κ → (List Row × Option RowsError) × RowsStore κ
  | 0, store => (([], none), store)
  | rounds + 1, store =>
    match store.next id with
    | (.error error, store) => (([], some error), store)
    | (.ok none, store) => (([], none), store)
    | (.ok (some row), store) =>
      let ((rows, ending), store) := drainRest id rounds store
      ((row :: rows, ending), store)

/-- All rows of a traversal of its own. -/
def drain (id : RowsId) (store : RowsStore κ) :
    Except RowsError (List Row × Option RowsError) × RowsStore κ :=
  match store.lock id with
  | (.error error, store) => (.error error, store)
  | (.ok _, store) =>
    let (result, store) := drainRest id (store.roundLimit id) store
    (.ok result, store.free id)

end RowsStore

end ArchiveScript
