import ArchiveScript.Proofs.Rows.Locks

/-! # What is seen of rows

Of a text table and of live rows over a table there is the same to be seen: all of the rows, those
that are still to come, and whether they are locked. What each operation answers and what is seen
after it depends on this view alone.
-/

namespace ArchiveScript

namespace Rows

/-- A row of exactly as many cells: more are cut off, and those that are missing have no value. -/
def fit (columns : Nat) (row : Row) : Row := pad columns (row.take columns)

theorem length_fit (columns : Nat) (row : Row) : (fit columns row).length = columns := by
  simp only [fit, pad, List.length_append, List.length_take, List.length_replicate]
  omega

theorem getElem?_fit {columns column : Nat} (row : Row) (h : column < columns) :
    (fit columns row)[column]? = some ((row[column]?).getD none) := by
  unfold fit pad
  by_cases hr : column < row.length
  · have ht : column < (row.take columns).length := by
      rw [List.length_take]
      omega
    rw [List.getElem?_append_left ht, List.getElem?_take_of_lt h]
    simp [hr]
  · have ht : (row.take columns).length = row.length := by
      rw [List.length_take]
      omega
    rw [List.getElem?_append_right (by omega), ht, List.getElem?_replicate, if_pos (by omega)]
    simp [Nat.le_of_not_lt hr]

end Rows

namespace TableCursor

open Rows

variable {cursor : TableCursor}

@[simp]
theorem goto_goto (cursor : TableCursor) (first second : Nat) :
    (cursor.goto first).goto second = cursor.goto second := rfl

theorem goto_of_le {position : Nat} (h : position ≤ cursor.rows.size + 1) :
    cursor.goto position = { cursor with position } := by
  rw [goto, Nat.min_eq_left h]

theorem get_run (cursor : TableCursor) :
    (get : Act TableCursor TableCursor) cursor = (.ok cursor, cursor) := rfl

theorem advance_run (cursor : TableCursor) :
    Cursor.advance cursor = (.ok (cursor.goto (cursor.position + 1)).current?.isSome,
      cursor.goto (cursor.position + 1)) := rfl

theorem cell_run (cursor : TableCursor) (column : Nat) :
    (Cursor.cell column : Act TableCursor (Option String)) cursor =
      (cursor.fetch column, cursor) := by
  dsimp only [Cursor.cell]
  rw [act_bind, get_run]
  dsimp only
  cases cursor.fetch column <;> rfl

theorem fetchCells_run {row : Row} (h : cursor.current? = some row) {column count : Nat}
    (hc : column + count ≤ cursor.columns) :
    fetchCells column count cursor =
      (.ok (((fit cursor.columns row).drop column).take count), cursor) := by
  induction count generalizing column with
  | zero => rfl
  | succ count ih =>
    have hlt : column < cursor.columns := by omega
    have hf : cursor.fetch column = .ok ((row[column]?).getD none) := by
      simp only [fetch, h, if_neg (Nat.not_le.2 hlt)]
    have hd : (fit cursor.columns row).drop column =
        (row[column]?).getD none :: (fit cursor.columns row).drop (column + 1) := by
      have hl : column < (fit cursor.columns row).length :=
        Nat.lt_of_lt_of_eq hlt (length_fit _ _).symm
      have hg := getElem?_fit row hlt
      rw [List.getElem?_eq_getElem hl] at hg
      rw [List.drop_eq_getElem_cons hl, Option.some.inj hg]
    rw [fetchCells, act_bind, cell_run, hf]
    dsimp only
    rw [act_bind, ih (by omega), hd]
    rfl

theorem fetchRow_run (cursor : TableCursor) :
    fetchRow cursor = (.ok ((cursor.rows[cursor.position]?).map (fit cursor.columns)),
      cursor.goto (cursor.position + 1)) := by
  rw [fetchRow, act_bind, advance_run]
  dsimp only
  by_cases h : cursor.position < cursor.rows.size
  · have hg : cursor.goto (cursor.position + 1) =
        { cursor with position := cursor.position + 1 } := goto_of_le (by omega)
    have hc : (cursor.goto (cursor.position + 1)).current? = some cursor.rows[cursor.position] := by
      rw [hg]
      exact Array.getElem?_eq_getElem h
    have hf : fetchCells 0 (Cursor.columnCount (cursor.goto (cursor.position + 1)))
          (cursor.goto (cursor.position + 1)) =
        (.ok (fit cursor.columns cursor.rows[cursor.position]),
          cursor.goto (cursor.position + 1)) := by
      refine (fetchCells_run hc (Nat.le_of_eq (Nat.zero_add _))).trans ?_
      rw [List.drop_zero, List.take_of_length_le (Nat.le_of_eq (length_fit _ _))]
      rfl
    rw [hc, Array.getElem?_eq_getElem h, Option.isSome_some, if_pos rfl, act_bind, get_run]
    dsimp only
    rw [act_bind, hf]
    rfl
  · have hc : (cursor.goto (cursor.position + 1)).current? = none := by
      have hp : min (cursor.position + 1) (cursor.rows.size + 1) = cursor.rows.size + 1 := by omega
      simp [goto, current?, hp]
    rw [hc, Array.getElem?_eq_none (Nat.le_of_not_lt h)]
    rfl

theorem row_run (cursor : TableCursor) :
    (Cursor.row : Act TableCursor Nat) cursor =
      (.ok (if cursor.current?.isSome then cursor.position else 0), cursor) := rfl

theorem last_run (cursor : TableCursor) :
    (Cursor.last : Act TableCursor Bool) cursor =
      (.ok (!cursor.rows.isEmpty), cursor.goto cursor.rows.size) := rfl

theorem current?_isSome (cursor : TableCursor) :
    cursor.current?.isSome = decide (0 < cursor.position ∧ cursor.position ≤ cursor.rows.size) := by
  unfold current?
  cases cursor.position with
  | zero => rfl
  | succ index =>
    have hsome : cursor.rows[index]?.isSome = decide (index < cursor.rows.size) := by
      by_cases h : index < cursor.rows.size <;> simp [h]
    refine hsome.trans (decide_eq_decide.2 ?_)
    omega

/-- The number of the row that the cursor is on does not tell one end from the other, so that the
way back from behind the last row leads before the first. -/
theorem countRows_run (cursor : TableCursor) :
    countRows cursor = (.ok cursor.rows.size,
      cursor.goto (if cursor.rows.size < cursor.position then 0 else cursor.position)) := by
  have hcurrent : (if cursor.current?.isSome then cursor.position else 0) =
      if cursor.rows.size < cursor.position then 0 else cursor.position := by
    rw [current?_isSome]
    simp only [decide_eq_true_eq]
    split <;> split <;> omega
  have hback (count current : Nat) (cursor : TableCursor) :
      (if current = 0 then do Cursor.beforeFirst; return count
        else do discard (Cursor.absolute current); return count : Act TableCursor Nat) cursor =
        (.ok count, cursor.goto current) := by
    by_cases h : current = 0
    · rw [if_pos h, h]
      rfl
    · rw [if_neg h]
      rfl
  rw [countRows, act_bind, row_run, hcurrent]
  dsimp only
  rw [act_bind, last_run]
  dsimp only
  cases hs : cursor.rows.isEmpty with
  | true =>
    have hz : cursor.rows.size = 0 := Array.isEmpty_iff_size_eq_zero.1 hs
    exact (hback 0 _ _).trans (by rw [hz, goto_goto])
  | false =>
    have hg := goto_of_le (Nat.le_succ cursor.rows.size)
    have hpos : 0 < cursor.rows.size :=
      Nat.pos_of_ne_zero fun hz => by simp [Array.isEmpty_iff_size_eq_zero.2 hz] at hs
    have hc : (cursor.goto cursor.rows.size).current?.isSome = true := by
      rw [current?_isSome, hg]
      simpa using hpos
    rw [Bool.not_false, if_pos rfl, act_bind, row_run, hc, if_pos rfl]
    dsimp only
    rw [hback, goto_goto, hg]

end TableCursor

structure RowsView where
  locked : Bool
  /-- A cursor delivers the rows. -/
  live : Bool
  /-- All rows, as traversals deliver them. -/
  content : List Row
  /-- The rows that are still to come. -/
  rest : List Row
  /-- The cursor is behind the last row. -/
  past : Bool
  size : Option Nat

namespace RowsView

def tryLock (view : RowsView) : Bool × RowsView :=
  if view.locked then (false, view)
  else (true, { view with locked := true, rest := view.content, past := false })

def next (view : RowsView) : Option Row × RowsView :=
  (view.rest.head?,
    { view with rest := view.rest.tail, past := view.live && view.rest.isEmpty })

def free (view : RowsView) : RowsView := { view with locked := false }

/-- Rows are counted once. If the cursor is behind the last row then, all rows come again. -/
def measure (view : RowsView) : Nat × RowsView :=
  match view.size with
  | some size => (size, view)
  | none =>
    let rest := if view.past then view.content else view.rest
    (view.content.length, { view with rest, past := false, size := some view.content.length })

variable (view : RowsView)

@[simp]
theorem content_tryLock : view.tryLock.2.content = view.content := by
  unfold tryLock
  split <;> rfl

@[simp]
theorem content_next : view.next.2.content = view.content := rfl

@[simp]
theorem content_free : view.free.content = view.content := rfl

@[simp]
theorem content_measure : view.measure.2.content = view.content := by
  unfold measure
  split <;> rfl

end RowsView

namespace Rows

def view (rows : Rows TableCursor) : RowsView :=
  match rows.source with
  | .live cursor => {
      locked := rows.locked
      live := true
      content := cursor.rows.toList.map (fit cursor.columns)
      rest := (cursor.rows.toList.drop cursor.position).map (fit cursor.columns)
      past := cursor.rows.size < cursor.position
      size := rows.size }
  | .table _ table position => {
      locked := rows.locked
      live := false
      content := table.toList
      rest := table.toList.drop position
      past := false
      size := rows.size }

theorem locked_view (rows : Rows TableCursor) : rows.view.locked = rows.locked := by
  rcases rows with ⟨_, _ | _, _⟩ <;> rfl

def seen {α : Type} (passed : Except HostError α × Rows TableCursor) :
    Except HostError α × RowsView := (passed.1, passed.2.view)

variable (rows : Rows TableCursor)

theorem rowLimit_eq : rows.rowLimit = rows.view.content.length := by
  rcases rows with ⟨_, _ | _, _⟩ <;> simp [rowLimit, view, Cursor.rowLimit]

theorem seen_tryLock : seen rows.tryLock = (.ok rows.view.tryLock.1, rows.view.tryLock.2) := by
  rcases rows with ⟨locked, cursor | ⟨columns, table, position⟩, size⟩
  · cases locked with
    | true => rfl
    | false =>
      change (Except.ok true, view ⟨true, .live (cursor.goto 0), size⟩) = _
      simp [view, TableCursor.goto, RowsView.tryLock]
  · cases locked <;> rfl

theorem seen_next : seen rows.next = (.ok rows.view.next.1, rows.view.next.2) := by
  rcases rows with ⟨locked, cursor | ⟨columns, table, position⟩, size⟩
  · simp only [seen, next, onCursor, TableCursor.fetchRow_run, view, RowsView.next]
    by_cases h : cursor.position < cursor.rows.size
    · rw [TableCursor.goto_of_le (Nat.succ_le_succ (Nat.le_of_lt h)),
        List.drop_eq_getElem_cons (l := cursor.rows.toList) h, Array.getElem?_eq_getElem h]
      simp [Nat.not_lt.2 h]
    · have hle : cursor.rows.toList.length ≤ cursor.position := Nat.le_of_not_lt h
      have hp : min (cursor.position + 1) (cursor.rows.size + 1) = cursor.rows.size + 1 := by omega
      rw [List.drop_eq_nil_of_le hle, Array.getElem?_eq_none hle]
      simp [TableCursor.goto, hp]
  · by_cases h : position < table.size
    · simp only [seen, next, view, RowsView.next, Array.getElem?_eq_getElem h,
        List.drop_eq_getElem_cons (l := table.toList) h]
      simp
    · have hle : table.toList.length ≤ position := Nat.le_of_not_lt h
      simp only [seen, next, view, RowsView.next, Array.getElem?_eq_none hle,
        List.drop_eq_nil_of_le hle]
      rfl

theorem view_free : rows.free.view = rows.view.free := by
  rcases rows with ⟨_, _ | _, _⟩ <;> rfl

theorem seen_measure : seen rows.measure = (.ok rows.view.measure.1, rows.view.measure.2) := by
  rcases rows with ⟨locked, cursor | ⟨columns, table, position⟩, _ | n⟩
  · simp only [seen, measure, onCursor, TableCursor.countRows_run, view, RowsView.measure]
    by_cases h : cursor.rows.size < cursor.position
    · simp [h, TableCursor.goto]
    · simp [h, TableCursor.goto_of_le (Nat.le_succ_of_le (Nat.le_of_not_lt h))]
  · rfl
  · rfl
  · rfl

end Rows

inductive RowsOrigin where
  | text (source : String)
  /-- The answer to a query. -/
  | query (columns : Nat) (rows : List Row)

namespace RowsOrigin

def rows : RowsOrigin → Rows TableCursor
  | .text source => .ofText source
  | .query columns rows => .live { columns, rows := rows.toArray }

/-- The rows of a text are as wide as its widest line, and those of a query have the columns of the
query. -/
def content : RowsOrigin → List Row
  | .text source =>
    let lines := (Rows.textLines source.toList).map Rows.lineCells
    lines.map (Rows.pad ((lines.map List.length).foldl max 0))
  | .query columns rows => rows.map (Rows.fit columns)

def isQuery : RowsOrigin → Bool
  | .text _ => false
  | .query .. => true

theorem view_rows (origin : RowsOrigin) : origin.rows.view = {
    locked := false
    live := origin.isQuery
    content := origin.content
    rest := origin.content
    past := false
    size := if origin.isQuery then none else some origin.content.length } := by
  cases origin with
  | text source => simp [rows, Rows.ofText, Rows.view, content, isQuery]
  | query columns rows => simp [RowsOrigin.rows, Rows.live, Rows.view, content, isQuery]

end RowsOrigin

end ArchiveScript
