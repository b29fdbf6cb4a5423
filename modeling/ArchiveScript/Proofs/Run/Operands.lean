import ArchiveScript.Proofs.Run.Moves
import ArchiveScript.Proofs.Run.Recursion

/-! # What expressions change

Expressions and verbatim blocks take in the lines of texts as new rows, and count rows. They change
nothing else, so what survives these two survives them all.
-/

namespace ArchiveScript.Run

open Eval

variable {η κ α : Type}

/-- Among the moves are what expressions do to rows. -/
structure Counts [Cursor κ] (T U : World η κ → World η κ → Prop) : Prop extends Composes T U where
  add : ∀ world text, T world { world with rows := (world.rows.add (.ofText text)).2 }
  size : ∀ world id n rows, world.rows.size id = (.ok n, rows) → T world { world with rows }
  unsized : ∀ world id error rows, world.rows.size id = (.error error, rows) →
    U world { world with rows }

namespace Counts

section Inner

variable {T U : World η κ → World η κ → Prop} {inner : Node → Eval η κ Value}
  (hi : ∀ node, Moves T U (inner node))

include hi

theorem interpolated (hc : Composes T U) (node : Node) : Moves T U (interpolated inner node) := by
  unfold Run.interpolated
  split
  · exact hi _
  · exact hc.fail _

theorem stringPieces (hc : Composes T U) (pieces : List Child) :
    Moves T U (stringPieces inner pieces) := by
  induction pieces with
  | nil => exact hc.pure _
  | cons piece rest ih =>
    refine hc.seq ?_ fun _ => hc.seq ih fun _ => hc.pure _
    unfold stringPiece
    split
    · exact hc.pure _
    · split
      · exact hc.pure _
      · exact hc.fail _
    · refine hc.seq (interpolated hi hc _) fun value => ?_
      cases value
      case rows | connection => exact hc.failAt _ _
      all_goals exact hc.pure _
    · exact hc.fail _

end Inner

variable [Cursor κ] {T U : World η κ → World η κ → Prop} (hc : Counts T U)

include hc

theorem operate (value : Value) (operation : String) :
    Moves T U (operate value operation : Eval η κ Value) := by
  unfold Run.operate
  split
  · exact hc.pure _
  · split
    · exact hc.pure _
    · exact hc.fail _
  · exact hc.seq (fun world => hc.add world _) fun _ => hc.pure _
  · exact hc.pure _
  · refine hc.seq (.onRows ?_ ?_) fun _ => hc.pure _
    · exact fun world n rows => hc.size world _ n rows
    · exact fun world error rows => hc.unsized world _ error rows
  · exact hc.fail _

theorem basicWith {inner : Node → Eval η κ Value} (hi : ∀ node, Moves T U (inner node))
    (scope : Scope) (node : Node) : Moves T U (basicWith inner scope node) := by
  unfold Run.basicWith
  split
  · exact (hc.seq (stringPieces hi hc.toComposes _) fun _ => hc.pure _).orAt _
  · split
    · exact hc.pure _
    · exact hc.failAt _ _
  · split
    · exact hc.fail _
    · exact hc.seq (hc.identifier _) fun _ => (hc.lookUp _ _).orAt _
  · refine Moves.orAt (hc.seq (hc.need _ _) fun _ => hc.seq (hi _) fun _ => ?_) _
    exact hc.seq (hc.need _ _) fun _ => hc.seq (hc.identifier _) fun _ => hc.operate _ _
  · exact hc.failAt _ _

theorem basic (scope : Scope) (node : Node) :
    Moves T U (Run.basic scope node : Eval η κ Value) := by
  unfold Run.basic
  generalize node.height = height
  induction height generalizing node with
  | zero => exact hc.failAt _ _
  | succ height ih => exact hc.basicWith ih scope node

theorem fillValue (scope : Scope) (template : Template) (piece : Node) (safe : Bool) :
    Moves T U (fillValue scope template piece safe : Eval η κ Template) :=
  hc.seq (interpolated (hc.basic scope) hc.toComposes _) fun _ => (hc.settle _).placed _

theorem fillPieces (scope : Scope) (template : Template) (pieces : List Child) :
    Moves T U (fillPieces scope template pieces : Eval η κ Template) := by
  induction pieces generalizing template with
  | nil => exact hc.pure _
  | cons piece rest ih =>
    rw [fillPieces_cons]
    refine hc.seq ?_ ih
    unfold fillPiece
    split
    · exact hc.pure _
    · exact hc.fillValue _ _ _ _
    · exact hc.fillValue _ _ _ _
    · exact hc.failAt _ _

theorem raw (scope : Scope) (mode : TemplateMode) (node : Node) :
    Moves T U (raw scope mode node : Eval η κ Filled) := by
  unfold Run.raw
  split
  · exact hc.seq (hc.fillPieces _ _ _) fun _ => hc.pure _
  · exact hc.failAt _ _

theorem basicText (scope : Scope) (what : String) (node : Node) :
    Moves T U (basicText scope what node : Eval η κ String) :=
  hc.seq (hc.basic _ _) fun _ => (hc.settle _).orAt _

theorem text (scope : Scope) (what : String) (node : Node) :
    Moves T U (text scope what node : Eval η κ String) := by
  unfold Run.text
  split
  · exact hc.seq (hc.raw _ _ _) fun _ => hc.pure _
  · exact hc.basicText _ _ _

end Counts

abbrev Keeps (I : World η κ → Prop) (eval : Eval η κ α) : Prop :=
  Ensures I (fun _ => True) (fun _ => True) eval

def Inherits (I : World η κ → Prop) (world after : World η κ) : Prop := I world → I after

theorem Inherits.composes (I : World η κ → Prop) : Composes (Inherits I) (Inherits I) :=
  .of_trans (fun _ hw => hw) fun hb ha hw => ha (hb hw)

/-- The invariant survives what expressions do to rows. -/
structure Countable [Cursor κ] (I : World η κ → Prop) : Prop where
  add : ∀ world text, I world → I { world with rows := (world.rows.add (.ofText text)).2 }
  size : ∀ world id, I world → I { world with rows := (world.rows.size id).2 }

theorem Countable.counts [Cursor κ] {I : World η κ → Prop} (h : Countable I) :
    Counts (Inherits I) (Inherits I) where
  toComposes := Inherits.composes I
  add := h.add
  size world id _ rows hs hw := by
    have hi := h.size world id hw
    rw [hs] at hi
    exact hi
  unsized world id _ rows hs hw := by
    have hi := h.size world id hw
    rw [hs] at hi
    exact hi

/-- Expressions change rows only. -/
theorem Countable.rows [Cursor κ] (world : World η κ) :
    Countable fun now : World η κ => ∃ rows, now = { world with rows } := by
  constructor
  · rintro _ text ⟨rows, rfl⟩
    exact ⟨_, rfl⟩
  · rintro _ id ⟨rows, rfl⟩
    exact ⟨_, rfl⟩

namespace Keeps

variable {I : World η κ → Prop}

theorem of_moves {x : Eval η κ α} (h : Moves (Inherits I) (Inherits I) x) : Keeps I x :=
  fun world hw => ⟨h.after world hw, by split <;> trivial⟩

theorem need (node : Node) (field : Field) : Keeps I (node.need field : Eval η κ Node) :=
  .of_moves ((Inherits.composes I).need node field)

theorem identifier (node : Node) : Keeps I (node.identifier : Eval η κ String) :=
  .of_moves ((Inherits.composes I).identifier node)

theorem connectionOf (scope : Scope) (node : Node) :
    Keeps I (connectionOf scope node : Eval η κ Connection) :=
  .of_moves ((Inherits.composes I).connectionOf scope node)

theorem text [Cursor κ] (hc : Countable I) (scope : Scope) (what : String) (node : Node) :
    Keeps I (text scope what node : Eval η κ String) :=
  .of_moves (hc.counts.text scope what node)

end Keeps

end ArchiveScript.Run
