import ArchiveScript.Proofs.Rows.Views

/-! # Cursors over a table among others

The cursors of a store may be of many sorts. Where cursors over a table are among them and do what
they do by themselves, the rows that such a cursor delivers answer as they do by themselves.
-/

namespace ArchiveScript

variable {κ α β : Type}

/-- The first operation does among other cursors what the second one does by itself. -/
def Mirrors (embed : TableCursor → κ) (x : Act κ α) (y : Act TableCursor α) : Prop :=
  ∀ cursor, x (embed cursor) = ((y cursor).1, embed (y cursor).2)

/-- Cursors over a table are among the cursors. -/
structure Embeds [Cursor κ] (embed : TableCursor → κ) : Prop where
  columnCount : ∀ cursor, Cursor.columnCount (embed cursor) = cursor.columns
  rowLimit : ∀ cursor, cursor.rows.size ≤ Cursor.rowLimit (embed cursor)
  beforeFirst : Mirrors embed Cursor.beforeFirst Cursor.beforeFirst
  advance : Mirrors embed Cursor.advance Cursor.advance
  cell : ∀ column, Mirrors embed (Cursor.cell column) (Cursor.cell column)
  row : Mirrors embed Cursor.row Cursor.row
  last : Mirrors embed Cursor.last Cursor.last
  absolute : ∀ row, Mirrors embed (Cursor.absolute row) (Cursor.absolute row)

/-- A cursor that is not made to fail does what the cursor inside it does. -/
theorem FaultyCursor.embeds : Embeds fun cursor => (⟨cursor, none⟩ : FaultyCursor TableCursor) where
  columnCount _ := rfl
  rowLimit _ := Nat.le_refl _
  beforeFirst _ := rfl
  advance _ := rfl
  cell _ _ := rfl
  row _ := rfl
  last _ := rfl
  absolute _ _ := rfl

namespace Mirrors

variable {embed : TableCursor → κ} {x : Act κ α} {y : Act TableCursor α}

theorem pure (a : α) : Mirrors embed (Pure.pure a) (Pure.pure a) := fun _ => rfl

theorem bind {f : α → Act κ β} {g : α → Act TableCursor β} (h : Mirrors embed x y)
    (hf : ∀ a, Mirrors embed (f a) (g a)) : Mirrors embed (x >>= f) (y >>= g) := by
  intro cursor
  rw [act_bind, act_bind, h cursor]
  rcases y cursor with ⟨_ | a, after⟩
  · rfl
  · exact hf a after

theorem discard (h : Mirrors embed x y) :
    Mirrors embed (Functor.discard x) (Functor.discard y) :=
  h.bind fun _ => .pure PUnit.unit

end Mirrors

namespace Embeds

variable [Cursor κ] {embed : TableCursor → κ} (he : Embeds embed)

include he

theorem fetchCells (column count : Nat) :
    Mirrors embed (Rows.fetchCells column count) (Rows.fetchCells column count) := by
  induction count generalizing column with
  | zero => exact .pure []
  | succ count ih =>
    apply Mirrors.bind (he.cell column)
    intro cell
    apply Mirrors.bind (ih (column + 1))
    intro cells
    exact .pure (cell :: cells)

theorem fetchRow : Mirrors embed Rows.fetchRow Rows.fetchRow := by
  apply Mirrors.bind he.advance
  intro more
  cases more with
  | false => exact .pure none
  | true =>
    intro cursor
    have hc := (he.fetchCells 0 cursor.columns).bind fun cells => .pure (some cells)
    change (Rows.fetchCells 0 (Cursor.columnCount (embed cursor)) >>= fun cells =>
      Pure.pure (some cells)) (embed cursor) = _
    rw [he.columnCount]
    exact hc cursor

theorem countRows : Mirrors embed Rows.countRows Rows.countRows := by
  apply Mirrors.bind he.row
  intro current
  apply Mirrors.bind he.last
  intro found
  have hback (count : Nat) : Mirrors embed
      (if current = 0 then do Cursor.beforeFirst; return count
        else do discard (Cursor.absolute current); return count)
      (if current = 0 then do Cursor.beforeFirst; return count
        else do discard (Cursor.absolute current); return count) := by
    split
    · exact he.beforeFirst.bind fun _ => .pure count
    · exact (he.absolute current).discard.bind fun _ => .pure count
  cases found with
  | false => exact hback 0
  | true => exact he.row.bind hback

end Embeds

def RowsSource.map {κ' : Type} (f : κ → κ') : RowsSource κ → RowsSource κ'
  | .live cursor => .live (f cursor)
  | .table columns rows position => .table columns rows position

namespace Rows

def map {κ' : Type} (f : κ → κ') (rows : Rows κ) : Rows κ' :=
  ⟨rows.locked, rows.source.map f, rows.size⟩

variable [Cursor κ] {embed : TableCursor → κ} (he : Embeds embed) (rows : Rows TableCursor)

include he

theorem map_next :
    (rows.map embed).next = (rows.next.1, rows.next.2.map embed) := by
  rcases rows with ⟨locked, cursor | ⟨columns, table, position⟩, size⟩
  · simp only [next, map, RowsSource.map, onCursor, he.fetchRow cursor]
    rfl
  · simp only [next, map, RowsSource.map]
    cases table[position]? <;> rfl

theorem map_tryLock :
    (rows.map embed).tryLock = (rows.tryLock.1, rows.tryLock.2.map embed) := by
  rcases rows with ⟨_ | _, cursor | ⟨columns, table, position⟩, size⟩
  · simp only [tryLock, map, RowsSource.map, onCursor, he.beforeFirst cursor]
    rfl
  all_goals rfl

theorem map_measure :
    (rows.map embed).measure = (rows.measure.1, rows.measure.2.map embed) := by
  rcases rows with ⟨locked, cursor | ⟨columns, table, position⟩, _ | n⟩
  · simp only [measure, map, RowsSource.map, onCursor, he.countRows cursor]
    rw [TableCursor.countRows_run]
  all_goals rfl

theorem length_le_rowLimit : rows.view.content.length ≤ (rows.map embed).rowLimit := by
  rcases rows with ⟨locked, cursor | ⟨columns, table, position⟩, size⟩
  · simpa [view, map, RowsSource.map, rowLimit] using he.rowLimit cursor
  · simp [view, map, RowsSource.map, rowLimit]

end Rows

end ArchiveScript
