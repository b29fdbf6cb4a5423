import ArchiveScript.Proofs.Rows.Counting
import Mathlib.Data.List.Forall2

/-! # Fresh traversals

Whatever was done to rows before, and wherever it left them, a traversal that begins now delivers
all of them, from the first to the last, and then there are none for good. While one is going on
no other begins, and the attempt is not noticed.
-/

namespace ArchiveScript

open Rows

/-! ### The width of rows -/

namespace Rows

/-- A row of just as many cells as there are columns: those that were given, as far as there are
columns for them, and after them cells without a value. -/
structure Fits (columns : Nat) (given row : Row) : Prop where
  length_eq : row.length = columns
  cell_eq : ∀ column < columns, row[column]? = some ((given[column]?).getD none)

theorem fits_fit (columns : Nat) (given : Row) : Fits columns given (fit columns given) :=
  ⟨length_fit columns given, fun _ h => getElem?_fit given h⟩

theorem fit_of_length_le {columns : Nat} {given : Row} (h : given.length ≤ columns) :
    fit columns given = pad columns given := by
  rw [fit, List.take_of_length_le h]

theorem length_le_widest {lines : List Row} {line : Row} (h : line ∈ lines) :
    line.length ≤ (lines.map List.length).foldl max 0 := by
  rw [List.foldl_max]
  exact Nat.le_trans (List.le_max?_getD_of_mem (List.mem_map_of_mem h)) (Nat.le_max_right 0 _)

variable (rows : Rows TableCursor)

@[simp]
theorem columnCount_call (call : RowsCall) : (rows.call call).2.columnCount = rows.columnCount := by
  rcases rows with ⟨locked, cursor | ⟨columns, table, position⟩, size⟩
  · cases call with
    | lock => cases locked <;> rfl
    | next =>
      simp only [Rows.call, next, onCursor, TableCursor.fetchRow_run]
      rfl
    | free => rfl
    | size =>
      cases size with
      | none =>
        simp only [Rows.call, measure, onCursor, TableCursor.countRows_run]
        rfl
      | some n => rfl
  · cases call with
    | lock => cases locked <;> rfl
    | next => cases h : table[position]? <;> simp [Rows.call, next, h, columnCount]
    | free => rfl
    | size => cases size <;> rfl

theorem columnCount_after (calls : List RowsCall) :
    (rows.after calls).columnCount = rows.columnCount := by
  induction calls generalizing rows with
  | nil => rfl
  | cons call calls ih => exact (ih _).trans (rows.columnCount_call call)

end Rows

namespace RowsView

/-- Rows that are asked for one after another are those that are to come, and after the last of
them there is none however often one is asked for. -/
theorem told_nexts (view : RowsView) (m : Nat) :
    view.told (List.replicate m .next) =
      (List.range m).map fun i => (.next, .row view.rest[i]?) := by
  induction m generalizing view with
  | zero => rfl
  | succ m ih =>
    have hfirst : view.next.1 = view.rest[0]? := List.head?_eq_getElem?
    have hrest (i : Nat) : view.next.2.rest[i]? = view.rest[i + 1]? := List.getElem?_tail
    rw [List.replicate_succ, told, call, ih, List.range_succ_eq_map, List.map_cons, List.map_map]
    simp only [hfirst, hrest]
    rfl

theorem tryLock_unlocked {view : RowsView} (h : view.locked = false) :
    view.tryLock = (true, { view with locked := true, rest := view.content, past := false }) := by
  rw [tryLock, h]
  rfl

end RowsView

namespace RowsOrigin

/-- The rows as they were given: the cells of each line of a text, or the rows of an answer. -/
def given : RowsOrigin → List Row
  | .text source => (textLines source.toList).map lineCells
  | .query _ rows => rows

theorem content_eq_map (origin : RowsOrigin) :
    origin.content = origin.given.map (fit origin.rows.columnCount) := by
  cases origin with
  | text source =>
    refine List.map_congr_left fun line h => ?_
    exact (fit_of_length_le (length_le_widest h)).symm
  | query columns rows => rfl

/-- What is delivered are the rows that were given, in order, each with a cell for each column. -/
theorem fits_content (origin : RowsOrigin) :
    List.Forall₂ (Fits origin.rows.columnCount) origin.given origin.content := by
  rw [content_eq_map]
  exact List.forall₂_map_right_iff.2 (List.forall₂_same.2 fun row _ => fits_fit _ row)

/-- A traversal that begins after any calls, on rows that these have left unlocked, goes through
all the rows that were given, in order and each as wide as there are columns, and meets no other
row after them. Locked rows refuse it and stay as they are. -/
theorem fresh_traversal_delivers_all (origin : RowsOrigin) (calls : List RowsCall) :
    ∃ delivered, List.Forall₂ (Fits (origin.rows.after calls).columnCount) origin.given delivered ∧
      if (origin.rows.after calls).locked then
        (origin.rows.after calls).call .lock = (.locked false, origin.rows.after calls)
      else ∀ m, (origin.rows.after calls).told (.lock :: List.replicate m .next) =
        (.lock, .locked true) ::
          (List.range m).map fun i => (.next, .row delivered[i]?) := by
  refine ⟨origin.content, ?_, ?_⟩
  · rw [columnCount_after]
    exact origin.fits_content
  have hcontent : (origin.rows.after calls).view.content = origin.content := by
    rw [view_after, RowsView.content_after, view_rows]
  generalize origin.rows.after calls = rows at hcontent ⊢
  cases hl : rows.locked with
  | true =>
    rw [if_pos rfl, Rows.call, tryLock, if_pos hl]
    rfl
  | false =>
    rw [if_neg Bool.false_ne_true]
    intro m
    have hbegun := RowsView.tryLock_unlocked (rows.locked_view.trans hl)
    rw [told_eq, RowsView.told, RowsView.call, hbegun, RowsView.told_nexts, hcontent]

/-- A traversal is given up after its first row, and the next one begins with that row again. -/
example :
    ((query 2 [[some "a"], [none, some "b", some "c"]]).rows.after [.lock, .next, .free]).told
        [.lock, .next, .next, .next, .next] =
      [(.lock, .locked true), (.next, .row (some [some "a", none])),
        (.next, .row (some [none, some "b"])), (.next, .row none), (.next, .row none)] := by
  decide

end RowsOrigin

end ArchiveScript
