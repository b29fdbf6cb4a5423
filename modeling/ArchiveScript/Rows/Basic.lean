import ArchiveScript.Rows.Cursor

/-! # Rows

A rows value is live, when a cursor of the database delivers its rows, or a table that was read
from a text. One traversal can go on at a time: it holds the lock of the rows.
-/

namespace ArchiveScript

inductive RowsSource (κ : Type) where
  | live (cursor : κ)
  /-- `position` is the number of the rows that were delivered. -/
  | table (columns : Nat) (rows : Array Row) (position : Nat)

structure Rows (κ : Type) where
  locked : Bool
  source : RowsSource κ
  /-- The number of rows, once it is known. -/
  size : Option Nat

namespace Rows

variable {κ : Type}

def live (cursor : κ) : Rows κ := ⟨false, .live cursor, none⟩

/-- Cuts a text at each character of the given sort; there is always a first piece. -/
def splitAt (cut : Char) : List Char → List (List Char)
  | [] => [[]]
  | c :: cs =>
    if c = cut then [] :: splitAt cut cs
    else match splitAt cut cs with
      | [] => [[c]]
      | piece :: pieces => (c :: piece) :: pieces

/-- The lines of a text. A line feed ends a line together with a carriage return before it, and
a text that ends with one has no line after it. -/
def textLines (text : List Char) : List (List Char) :=
  let pieces := splitAt '\n' text
  let ended := pieces.dropLast.map fun line =>
    if line.getLast? = some '\r' then line.dropLast else line
  match pieces.getLast? with
  | none | some [] => ended
  | some line => ended ++ [line]

/-- The cells of a line, which tabs divide. -/
def lineCells (line : List Char) : Row :=
  (splitAt '\t' line).map fun cell => some (String.ofList cell)

/-- Adds cells without a value up to a width. -/
def pad (columns : Nat) (row : Row) : Row := row ++ List.replicate (columns - row.length) none

/-- A table with a row for each line of the text; all rows are as wide as the widest. -/
def ofText (text : String) : Rows κ :=
  let rows := (textLines text.toList).map lineCells
  let columns := (rows.map List.length).foldl max 0
  ⟨false, .table columns (rows.map (pad columns)).toArray 0, some rows.length⟩

variable [Cursor κ]

def columnCount (rows : Rows κ) : Nat :=
  match rows.source with
  | .live cursor => Cursor.columnCount cursor
  | .table columns _ _ => columns

/-- The most rows that one traversal visits. -/
def rowLimit (rows : Rows κ) : Nat :=
  match rows.source with
  | .live cursor => Cursor.rowLimit cursor
  | .table _ rows _ => rows.size

/-- An operation on the cursor of the rows. -/
def onCursor (rows : Rows κ) (cursor : κ) (operation : Act κ α) : Except HostError α × Rows κ :=
  let (result, cursor) := operation cursor
  (result, { rows with source := .live cursor })

/-- Goes before the first row and locks, unless the rows are locked. -/
def tryLock (rows : Rows κ) : Except HostError Bool × Rows κ :=
  if rows.locked then (.ok false, rows)
  else match rows.source with
    | .live cursor =>
      match rows.onCursor cursor Cursor.beforeFirst with
      | (.ok _, rows) => (.ok true, { rows with locked := true })
      | (.error error, rows) => (.error error, rows)
    | .table columns table _ =>
      (.ok true, { rows with locked := true, source := .table columns table 0 })

/-- The cells of the current row from `column` on, `count` of them. -/
def fetchCells (column : Nat) : Nat → Act κ Row
  | 0 => return []
  | count + 1 => do
    let cell ← Cursor.cell column
    return cell :: (← fetchCells (column + 1) count)

/-- The next row of a cursor. -/
def fetchRow : Act κ (Option Row) := do
  if ← Cursor.advance then
    return some (← fetchCells 0 (Cursor.columnCount (← get)))
  else return none

/-- The next row, if there is one. -/
def next (rows : Rows κ) : Except HostError (Option Row) × Rows κ :=
  match rows.source with
  | .live cursor => rows.onCursor cursor fetchRow
  | .table columns table position =>
    match table[position]? with
    | some row => (.ok (some row), { rows with source := .table columns table (position + 1) })
    | none => (.ok none, rows)

def free (rows : Rows κ) : Rows κ := { rows with locked := false }

/-- Counts the rows of a cursor by going to the last one and back. -/
def countRows : Act κ Nat := do
  let current ← Cursor.row
  let count ← if ← Cursor.last then Cursor.row else pure 0
  if current = 0 then Cursor.beforeFirst else discard (Cursor.absolute current)
  return count

/-- The number of rows, which is found once. -/
def measure (rows : Rows κ) : Except HostError Nat × Rows κ :=
  match rows.size with
  | some size => (.ok size, rows)
  | none =>
    match rows.source with
    | .live cursor =>
      match rows.onCursor cursor countRows with
      | (.ok size, rows) => (.ok size, { rows with size := some size })
      | (.error error, rows) => (.error error, rows)
    | .table _ table _ => (.ok table.size, { rows with size := some table.size })

def render (rows : Rows κ) : String :=
  let source := match rows.source with
    | .live _ => "live"
    | .table .. => "table"
  let state := if rows.locked then "Locked" else "Unlocked"
  let size := match rows.size with
    | some size => s!"Some({size})"
    | none => "None"
  "Rows \x7b source: \"" ++ source ++ "\", state: " ++ state ++ ", size: " ++ size ++ " \x7d"

end Rows

end ArchiveScript
