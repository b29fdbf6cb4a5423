import ArchiveScript.Proofs.Rows.Equality
import Mathlib.Data.List.ReduceOption

/-! # Written tables

A table is written with a line for each of its rows, on which the cells stand with tabs between
them. The text is read back as the same rows, the narrower ones of which are filled up with cells
without a value. So different tables are never read back as equal ones.
-/

namespace ArchiveScript

namespace Rows

variable {rows : List (List String)} {row : List String}

/-- A row has at least one cell, and no cell goes beyond its column or its line. -/
def Writable (rows : List (List String)) : Prop :=
  ∀ row ∈ rows, row ≠ [] ∧ ∀ cell ∈ row, ∀ c ∈ cell.toList, c ≠ '\t' ∧ c ≠ '\n' ∧ c ≠ '\r'

instance (rows : List (List String)) : Decidable (Writable rows) :=
  inferInstanceAs (Decidable (∀ row ∈ rows, _))

def writtenLine (row : List String) : String := "\t".intercalate row

def written (rows : List (List String)) : String :=
  String.join (rows.map fun row => writtenLine row ++ "\n")

def width (rows : List (List String)) : Nat := (rows.map List.length).max?.getD 0

/-- The cells of a row and, up to the width of its table, cells without a value. -/
def filled (columns : Nat) (row : List String) : Row :=
  row.map some ++ List.replicate (columns - row.length) none

/-! ### Reading back -/

theorem splitAt_eq_splitOn (cut : Char) (text : List Char) :
    splitAt cut text = text.splitOn cut := by
  rw [List.splitOn_eq_splitOnP]
  induction text with
  | nil => rfl
  | cons c text ih =>
    obtain ⟨piece, pieces, hp⟩ :=
      List.exists_cons_of_ne_nil (List.splitOnP_ne_nil (· == cut) text)
    rw [List.splitOnP_cons_eq_if_modifyHead, splitAt, ih, hp]
    simp only [beq_iff_eq]
    rfl

theorem splitOn_ended {lines : List (List Char)} (h : ∀ line ∈ lines, '\n' ∉ line) :
    (lines.flatMap (· ++ ['\n'])).splitOn '\n' = lines ++ [[]] := by
  have hjoin : lines.flatMap (· ++ ['\n']) = ['\n'].intercalate (lines ++ [[]]) := by
    clear h
    induction lines with
    | nil => rfl
    | cons line lines ih =>
      rw [List.flatMap_cons, ih, List.cons_append]
      cases lines <;> simp
  rw [hjoin]
  refine List.splitOn_intercalate '\n' (fun line hl => ?_) (by simp)
  rcases List.mem_append.1 hl with hl | hl
  · exact h line hl
  · rw [List.mem_singleton.1 hl]
    exact List.not_mem_nil

theorem textLines_ended {lines : List (List Char)}
    (h : ∀ line ∈ lines, '\n' ∉ line ∧ line.getLast? ≠ some '\r') :
    textLines (lines.flatMap (· ++ ['\n'])) = lines := by
  have hends : (lines.map fun line =>
      if line.getLast? = some '\r' then line.dropLast else line) = lines := by
    refine (List.map_congr_left fun line hl => ?_).trans (List.map_id lines)
    exact if_neg (h line hl).2
  rw [textLines, splitAt_eq_splitOn, splitOn_ended fun line hl => (h line hl).1]
  simp only [List.dropLast_concat, List.getLast?_concat, hends]

theorem toList_writtenLine (row : List String) :
    (writtenLine row).toList = ['\t'].intercalate (row.map String.toList) :=
  String.toList_intercalate

theorem toList_written (rows : List (List String)) :
    (written rows).toList =
      (rows.map fun row => (writtenLine row).toList).flatMap (· ++ ['\n']) := by
  simp [written, List.flatMap_map]

theorem mem_writtenLine {c : Char} (h : c ∈ (writtenLine row).toList) :
    c = '\t' ∨ ∃ cell ∈ row, c ∈ cell.toList := by
  rw [toList_writtenLine] at h
  induction row with
  | nil => cases h
  | cons cell row ih =>
    rcases row with _ | ⟨next, row⟩
    · exact .inr ⟨cell, List.mem_cons_self, by simpa using h⟩
    · rw [List.map_cons, List.map_cons, List.intercalate_cons_cons, List.append_assoc,
        List.mem_append, List.singleton_append, List.mem_cons] at h
      rcases h with h | h | h
      · exact .inr ⟨cell, List.mem_cons_self, h⟩
      · exact .inl h
      · obtain ht | ⟨other, ho, hc⟩ := ih h
        · exact .inl ht
        · exact .inr ⟨other, List.mem_cons_of_mem cell ho, hc⟩

theorem Writable.line (h : Writable rows) (hr : row ∈ rows) :
    '\n' ∉ (writtenLine row).toList ∧ (writtenLine row).toList.getLast? ≠ some '\r' := by
  have hcells := (h row hr).2
  constructor
  · intro hm
    obtain ht | ⟨cell, hc, hm⟩ := mem_writtenLine hm
    · exact absurd ht (by decide)
    · exact (hcells cell hc _ hm).2.1 rfl
  · intro hl
    obtain ht | ⟨cell, hc, hm⟩ := mem_writtenLine (List.mem_of_getLast? hl)
    · exact absurd ht (by decide)
    · exact (hcells cell hc _ hm).2.2 rfl

theorem Writable.lineCells (h : Writable rows) (hr : row ∈ rows) :
    lineCells (writtenLine row).toList = row.map some := by
  obtain ⟨hne, hcells⟩ := h row hr
  have hcut :
      (['\t'].intercalate (row.map String.toList)).splitOn '\t' = row.map String.toList := by
    refine List.splitOn_intercalate '\t' (fun text ht hm => ?_) (by simpa using hne)
    obtain ⟨cell, hc, rfl⟩ := List.mem_map.1 ht
    exact (hcells cell hc _ hm).1 rfl
  rw [Rows.lineCells, splitAt_eq_splitOn, toList_writtenLine, hcut, List.map_map]
  simp

theorem Writable.lines (h : Writable rows) :
    (textLines (written rows).toList).map Rows.lineCells = rows.map (List.map some) := by
  have hlines : ∀ line ∈ rows.map fun row => (writtenLine row).toList,
      '\n' ∉ line ∧ line.getLast? ≠ some '\r' := by
    intro line hl
    obtain ⟨row, hr, rfl⟩ := List.mem_map.1 hl
    exact h.line hr
  rw [toList_written, textLines_ended hlines, List.map_map]
  exact List.map_congr_left fun row hr => h.lineCells hr

theorem Writable.columns (h : Writable rows) :
    (((textLines (written rows).toList).map Rows.lineCells).map List.length).foldl max 0 =
      width rows := by
  rw [h.lines, List.foldl_max, Nat.zero_max, List.map_map, width]
  simp [Function.comp_def]

/-- What the text holds as rows. -/
theorem Writable.content (h : Writable rows) :
    (RowsOrigin.text (written rows)).content = rows.map (filled (width rows)) := by
  rw [RowsOrigin.content, h.columns, h.lines, List.map_map]
  refine List.map_congr_left fun row _ => ?_
  simp [pad, filled]

/-- The cells with a value are those that were given. -/
theorem reduceOption_filled (columns : Nat) (row : List String) :
    (filled columns row).reduceOption = row := by
  have hsome : (row.map some).reduceOption = row := by
    simp [List.reduceOption, List.filterMap_map]
  rw [filled, List.reduceOption_append, List.reduceOption_replicate_none, hsome, List.append_nil]

/-- However many columns the tables are filled up to, they tell what was given. -/
theorem map_filled_inj {columns columns' : Nat} {other : List (List String)} :
    rows.map (filled columns) = other.map (filled columns') → rows = other := by
  intro h
  have hr := congrArg (List.map List.reduceOption) h
  simpa [List.map_map, Function.comp_def, reduceOption_filled] using hr

end Rows

namespace RowsStore

open Rows

variable {store : RowsStore TableCursor} {id : RowsId}

theorem content?_of_ofText {text : String} (h : store.get? id = some (.ofText text)) :
    store.content? id = some (RowsOrigin.text text).content ∧ store.isLocked id = false := by
  constructor
  · have hv := (RowsOrigin.text text).view_rows
    rw [content?, view?, h]
    exact congrArg (fun view => some view.content) hv
  · rw [isLocked_of_get? h]
    rfl

/-- A table that is read from its text has as many rows as were written, and as many columns as the
widest of them has cells. A traversal delivers just these rows, filled up to that width. A second
table is equal to it only if the same rows were written for both. -/
theorem written_tables_decode {rows : List (List String)} (h : Writable rows) :
    let table : Rows TableCursor := .ofText (written rows)
    table.measure.1 = .ok rows.length ∧ table.columnCount = width rows ∧
      ∀ store id, get? store id = some table →
        (drain id store).1 = .ok (rows.map (filled (width rows)), none) ∧
        ∀ other, Writable other → ∀ second, second ≠ id →
          get? store second = some (.ofText (written other)) →
          (equal id second store).1 = .ok (decide (rows = other)) := by
  refine ⟨?_, h.columns, fun store id hg => ?_⟩
  · have hlength := congrArg List.length h.lines
    rw [List.length_map, List.length_map] at hlength
    exact congrArg Except.ok ((List.length_map ..).trans hlength)
  obtain ⟨hcontent, hfree⟩ := content?_of_ofText hg
  rw [h.content] at hcontent
  refine ⟨drain_fst hcontent hfree, fun other ho second hne hg' => ?_⟩
  obtain ⟨hcontent', hfree'⟩ := content?_of_ofText hg'
  rw [ho.content] at hcontent'
  rw [equal_fst hne.symm hcontent hcontent' hfree hfree']
  refine congrArg Except.ok (decide_eq_decide.2 ⟨map_filled_inj, ?_⟩)
  rintro rfl
  rfl

/-- Two tables that differ in an empty cell at the end of a row, which the other one is filled up
with. -/
def raggedTable : List (List String) := [["a", ""], [""], ["b"]]

def squareTable : List (List String) := [["a", ""], ["", ""], ["b", ""]]

theorem written_tables_decode_ragged :
    let store : RowsStore TableCursor :=
      ⟨#[.ofText (written raggedTable), .ofText (written squareTable)]⟩
    Writable raggedTable ∧ Writable squareTable ∧
      (drain 0 store).1 =
        .ok ([[some "a", some ""], [some "", none], [some "b", none]], none) ∧
      (equal 0 1 store).1 = .ok false := by
  have h : Writable raggedTable := by simp [Writable, raggedTable]
  have h' : Writable squareTable := by simp [Writable, squareTable]
  obtain ⟨-, -, htable⟩ := written_tables_decode h
  obtain ⟨hdrain, hequal⟩ := htable ⟨#[.ofText (written raggedTable),
    .ofText (written squareTable)]⟩ 0 rfl
  exact ⟨h, h', hdrain, hequal squareTable h' 1 (by decide) rfl⟩

end RowsStore

end ArchiveScript
