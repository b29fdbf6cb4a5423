import ArchiveScript.Proofs.Run.Operands
import ArchiveScript.Proofs.Tree.Grammar

/-! # What statements change

Besides what they declare, statements change their variables and their rows, they lock rows for a
time to go through them, and they leave the rest to the host. A relation that admits these moves
holds between the states before and after every part of a run that declares nothing, however that
ends.
-/

namespace ArchiveScript.Run

open Eval

variable {η κ α : Type} [Cursor κ]

/-- The relation admits all that a run does to its state, except that it declares something. Rows
are asked for their next row only while they are locked. -/
structure Admits (R : World η κ → World η κ → Prop) : Prop extends Composes R R where
  outside : ∀ world host opened trace, R world { world with host, opened, trace }
  scope : ∀ world scope, R world { world with scope }
  add : ∀ world rows, rows.locked = false → R world { world with rows := (world.rows.add rows).2 }
  size : ∀ world id, R world { world with rows := (world.rows.size id).2 }
  equal : ∀ world left right, R world { world with rows := (world.rows.equal left right).2 }
  locking : ∀ {x : Eval η κ Unit} (id : RowsId),
    ((∀ world, R world { world with rows := (world.rows.next id).2 }) → Moves R R x) →
      Moves R R (locking id x)

namespace Admits

variable {R : World η κ → World η κ → Prop} (ha : Admits R)

include ha

theorem counts : Counts R R where
  toComposes := ha.toComposes
  add world text := ha.add world (.ofText text) rfl
  size world id _ _ hs := by simpa only [hs] using ha.size world id
  unsized world id _ _ hs := by simpa only [hs] using ha.size world id

theorem record (event : Event) : Moves R R (record event : Eval η κ Unit) :=
  fun world => ha.outside world world.host world.opened (world.trace.push event)

theorem call (event : Event) (cause : String → Cause) (act : Act η α) :
    Moves R R (call event cause act : Eval η κ α) := by
  refine ha.seq (ha.record _) fun _ world => ?_
  rcases act world.host with ⟨_ | _, host⟩
  · exact ha.outside world host world.opened world.trace
  · exact ha.outside world host world.opened world.trace

theorem onScope (operation : Scope → Except ScopeError Scope) :
    Moves R R (onScope operation : Eval η κ Unit) := by
  intro world
  rw [Eval.onScope]
  cases operation world.scope
  · exact ha.stay world
  · exact ha.scope world _

theorem ofEquality (equal : Bool) (operator : String) (kind : ValueKind) :
    Moves R R (ofEquality equal operator kind : Eval η κ Bool) := by
  unfold Run.ofEquality
  split
  · exact ha.pure _
  · exact ha.pure _
  · exact ha.fail _

theorem comparison (scope : Scope) (node : Node) :
    Moves R R (comparison scope node : Eval η κ Bool) := by
  refine ha.seq (ha.need _ _) fun _ => ha.seq (ha.counts.basic _ _) fun left => ?_
  refine ha.seq (ha.need _ _) fun _ => ha.seq (ha.need _ _) fun _ => ?_
  refine ha.seq (ha.counts.basic _ _) fun right => ?_
  unfold compareValues
  split
  · split
    · exact ha.pure _
    · exact ha.fail _
  · exact ha.ofEquality _ _ _
  · split
    · exact ha.seq (.onRows_after fun world => ha.equal world _ _) fun _ => ha.ofEquality _ _ _
    · exact ha.fail _
  · exact ha.fail _

theorem bindParameter (settings : Settings) (parameter : Node) :
    Moves R R (bindParameter settings parameter : Eval η κ (Outline CommandKind)) := by
  unfold Run.bindParameter
  split
  · refine ha.seq (ha.need _ _) fun _ => ha.seq (ha.identifier _) fun _ => ?_
    dsimp only
    split
    · exact ha.seq (ha.onScope _) fun _ => ha.pure _
    · exact ha.seq (ha.onScope _) fun _ => ha.pure _
  · exact ha.failAt _ _

theorem bindParameters (settings : Settings) (list : List Child) :
    Moves R R (bindParameters settings list : Eval η κ (List (Outline CommandKind))) := by
  induction list with
  | nil => exact ha.pure _
  | cons parameter rest ih =>
    rw [bindParameters_cons]
    exact ha.seq (ha.bindParameter _ _) fun _ => ha.seq ih fun _ => ha.pure _

theorem propertiesFrom (scope : Scope) (properties : Dict String) (pairs : List Child) :
    Moves R R (propertiesFrom scope properties pairs : Eval η κ (Dict String)) := by
  induction pairs generalizing properties with
  | nil => exact ha.pure _
  | cons pair rest ih =>
    refine ha.seq (ha.need _ _) fun _ => ha.seq (ha.identifier _) fun _ => ?_
    exact ha.seq (ha.need _ _) fun _ => ha.seq ((ha.counts.text _ _ _).orAt _) fun _ => ih _

theorem log (node : Node) : Moves R R (log node : Eval η κ Unit) := by
  refine ha.seq ha.get fun _ => ha.seq (ha.need _ _) fun _ => ?_
  dsimp only
  split
  · refine ha.seq (ha.counts.raw _ _ _) fun _ => ?_
    exact ha.seq (ha.pure _) fun _ => ha.record _
  · refine ha.seq (ha.counts.basic _ _) fun _ => ha.seq ((ha.settle _).orAt _) fun _ => ?_
    exact ha.seq (ha.pure _) fun _ => ha.record _

theorem assert (node : Node) : Moves R R (assert node : Eval η κ Unit) := by
  refine ha.seq ha.get fun _ => ha.seq (ha.need _ _) fun _ => ?_
  refine ha.seq (ha.comparison _ _) fun _ => ?_
  split
  · exact ha.failAt _ _
  · exact ha.pure _

theorem declarationWith {inner : Node → Eval η κ (Outline ArchiveKind)}
    (hi : ∀ node, Moves R R (inner node)) (scope : Scope) (node : Node) :
    Moves R R (declarationWith inner scope node) := by
  unfold Run.declarationWith
  split
  · exact ha.failAt _ _
  · have hn (nested : List Child) (build : List (Outline ArchiveKind) → Outline ArchiveKind) :
        Moves R R (do
          let entries ← Eval.orAt node.span (nested.mapM fun child => inner child.2)
          Pure.pure (build entries)) :=
      ha.seq ((ha.mapM fun child _ => hi child.2).orAt _) fun _ => ha.pure _
    refine ha.seq (ha.need _ _) fun _ => ha.seq (ha.identifier _) fun _ => ?_
    dsimp only
    split
    · exact ha.seq (ha.pure _) fun _ => hn _ _
    · split
      · exact ha.seq (ha.pure _) fun _ => hn _ _
      · exact ha.seq (ha.counts.text _ _ _) fun _ => hn _ _

theorem declaration (scope : Scope) (node : Node) :
    Moves R R (declaration scope node : Eval η κ (Outline ArchiveKind)) := by
  unfold Run.declaration
  generalize node.height = height
  induction height generalizing node with
  | zero => exact ha.failAt _ _
  | succ height ih => exact ha.declarationWith ih scope node

theorem command (settings : Settings) (node : Node) :
    Moves R R (command settings node : Eval η κ (Outline CommandKind)) := by
  refine ha.seq ha.get fun _ => ha.seq (ha.need _ _) fun _ => ?_
  refine ha.seq (ha.counts.text _ _ _) fun _ => ?_
  dsimp only
  split
  case' h_1 => refine ha.seq (ha.bindParameters _ _) fun _ => ?_
  case' h_2 => refine ha.seq (ha.pure _) fun _ => ?_
  all_goals
    refine ha.seq ha.get fun _ => ha.seq (ha.need _ _) fun _ => ?_
    exact ha.seq (ha.counts.raw _ _ _) fun _ => ha.pure _

theorem bindCells (names : List String) (row : Row) :
    Moves R R (bindCells names row : Eval η κ Unit) := by
  induction names generalizing row with
  | nil => exact ha.pure _
  | cons name names ih =>
    unfold Run.bindCells
    dsimp only
    split
    · exact ha.seq (ha.onScope _) fun _ => ih _
    · exact ha.seq (ha.onScope _) fun _ => ih _

theorem forRows {body : Eval η κ Unit} {rows : RowsId}
    (hn : ∀ world, R world { world with rows := (world.rows.next rows).2 }) (hb : Moves R R body)
    (names : List String) (rounds : Nat) : Moves R R (forRows rows names body rounds) := by
  induction rounds with
  | zero => exact ha.pure _
  | succ rounds ih =>
    refine ha.seq (.onRows_after hn) fun next => ?_
    cases next with
    | none => exact ha.pure _
    | some row => exact ha.seq (ha.bindCells _ _) fun _ => ha.seq hb fun _ => ih

section Blocks

variable {run : Node → Eval η κ Unit} {node : Node}

theorem needBlock {field : Field} {f : Node → Eval η κ Unit}
    (hf : ∀ block, node.field? field = some block → Moves R R (f block)) :
    Moves R R (node.need field >>= f) := by
  unfold Node.need
  cases hb : node.field? field with
  | none => exact ha.failAt _ _
  | some block => exact hf block hb

theorem forLoop
    (hr : ∀ body, node.field? .body = some body → Moves R R (run body)) :
    Moves R R (forLoop run node) := by
  refine ha.seq (ha.need _ _) fun _ => ha.seq (ha.mapM fun child _ => ha.identifier _) fun _ => ?_
  refine ha.seq (ha.need _ _) fun _ => ha.seq ha.get fun _ => ?_
  refine ha.seq (ha.counts.basic _ _) fun _ => ha.seq ((ha.settle _).orAt _) fun _ => ?_
  refine ha.needBlock fun body hb => ha.locking _ fun hn => ?_
  exact ha.seq ha.get fun _ => ha.forRows hn (hr body hb) _ _

theorem conditional
    (hr : ∀ field ∈ [Field.consequent, .alternative], ∀ block,
      node.field? field = some block → Moves R R (run block)) :
    Moves R R (conditional run node) := by
  refine ha.seq ha.get fun _ => ha.seq (ha.need _ _) fun _ => ?_
  refine ha.seq (ha.comparison _ _) fun _ => ?_
  split
  · exact ha.needBlock (hr _ (by decide))
  · split
    · rename_i block hb
      exact hr _ (by decide) block hb
    · exact ha.pure _

end Blocks

section Declarations

variable (hl : ∀ world ledger, R world { world with ledger })

include hl

omit [Cursor κ] ha in
theorem onLedger (operation : Ledger → Ledger) :
    Moves R R (onLedger operation : Eval η κ Unit) :=
  fun world => hl world (operation world.ledger)

theorem declareInfo (connection : String) (node : Node) (fields : List Field) :
    Moves R R (declareInfo connection node fields : Eval η κ Unit) := by
  induction fields with
  | nil => exact ha.pure _
  | cons field rest ih =>
    unfold Run.declareInfo
    dsimp only
    split
    · exact ih
    · refine ha.seq ha.get fun _ => ha.seq (ha.counts.text _ _ _) fun _ => ?_
      exact ha.seq (onLedger hl _) fun _ => ih

theorem declareItems (settings : Settings) (connection : String) (items : List Child) :
    Moves R R (declareItems settings connection items : Eval η κ Unit) := by
  induction items with
  | nil => exact ha.pure _
  | cons item rest ih =>
    rw [declareItems_cons]
    refine ha.seq ?_ fun _ => ih
    unfold declareItem
    split
    · exact ha.seq ha.get fun _ => ha.seq (ha.declaration _ _) fun _ => onLedger hl _
    · exact ha.seq (ha.command _ _) fun _ => onLedger hl _
    · exact ha.pure _

theorem siardMetadata (settings : Settings) (node : Node) :
    Moves R R (siardMetadata settings node : Eval η κ Unit) := by
  refine ha.seq (ha.need _ _) fun _ => ha.seq (ha.identifier _) fun _ => ?_
  refine ha.seq (onLedger hl _) fun _ => ha.seq (ha.declareInfo hl _ _ _) fun _ => ?_
  exact ha.declareItems hl _ _ _

end Declarations

variable [Host η κ] (settings : Settings)

theorem runScript (node : Node) : Moves R R (runScript settings node : Eval η κ String) := by
  refine ha.seq ha.get fun _ => ha.seq (ha.need _ _) fun _ => ?_
  refine ha.seq (ha.counts.basicText _ _ _) fun _ => ha.seq (ha.need _ _) fun _ => ?_
  exact ha.seq (ha.counts.raw _ _ _) fun _ => ha.call _ _ _

theorem connect (node : Node) : Moves R R (connect node : Eval η κ Connection) := by
  have hc (url : String) (properties : Dict String) : Moves R R (do
      let link ← Eval.call (.connect url properties) .sql (Host.connect url properties)
      let connection : Connection := ⟨(← MonadState.get).opened, link.url, link.properties⟩
      modify fun world => { world with opened := world.opened + 1 }
      Eval.record (.opened connection)
      Pure.pure connection : Eval η κ Connection) := by
    refine ha.seq (ha.call _ _ _) fun _ => ha.seq ha.get fun _ => ha.seq ?_ fun _ => ?_
    · exact fun world => ha.outside world world.host (world.opened + 1) world.trace
    · exact ha.seq (ha.record _) fun _ => ha.pure _
  refine ha.seq ha.get fun _ => ha.seq (ha.need _ _) fun _ => ?_
  refine ha.seq (ha.counts.basicText _ _ _) fun url => ?_
  dsimp only
  split
  · exact ha.seq (ha.propertiesFrom _ _ _) (hc url)
  · exact ha.seq (ha.pure _) (hc url)

theorem query (node : Node) : Moves R R (query node : Eval η κ RowsId) := by
  refine ha.seq ha.get fun _ => ha.seq (ha.connectionOf _ _) fun _ => ?_
  refine ha.seq (ha.need _ _) fun _ => ha.seq (ha.counts.raw _ _ _) fun _ => ?_
  exact ha.seq (ha.call _ _ _) fun cursor world => ha.add world (.live cursor) rfl

theorem expression (node : Node) : Moves R R (expression settings node : Eval η κ Value) := by
  unfold Run.expression
  split
  · exact ha.seq (ha.connect _) fun _ => ha.pure _
  · exact ha.seq (ha.query _) fun _ => ha.pure _
  · exact ha.seq (ha.runScript _ _) fun _ => ha.pure _
  · exact ha.seq ha.get fun _ => ha.seq (ha.counts.raw _ _ _) fun _ => ha.pure _
  · exact ha.seq ha.get fun _ => ha.counts.basic _ _

theorem set (node : Node) : Moves R R (set settings node : Eval η κ Unit) := by
  refine ha.seq (ha.need _ _) fun _ => ha.seq (ha.identifier _) fun _ => ?_
  refine ha.seq (ha.need _ _) fun _ => ha.seq (ha.expression _ _) fun _ => ?_
  exact ha.onScope _

theorem executeSql (node : Node) : Moves R R (executeSql node : Eval η κ Unit) := by
  refine ha.seq ha.get fun _ => ha.seq (ha.connectionOf _ _) fun _ => ?_
  refine ha.seq (ha.need _ _) fun _ => ha.seq (ha.counts.raw _ _ _) fun _ => ?_
  exact ha.call _ _ _

theorem siardOutput (node : Node) : Moves R R (siardOutput settings node : Eval η κ Unit) := by
  refine ha.seq (ha.need _ _) fun _ => ha.seq (ha.identifier _) fun _ => ha.seq ha.get fun _ => ?_
  refine ha.seq (ha.connectionOf _ _) fun _ => ha.seq (ha.need _ _) fun _ => ?_
  refine ha.seq (ha.counts.text _ _ _) fun _ => ha.seq (ha.call _ _ _) fun _ => ?_
  refine ha.seq ha.get fun _ => ?_
  dsimp only
  split
  case' h_1 => refine ha.seq (ha.call _ _ _) fun _ => ?_
  -- The report comes last, with metadata or without.
  all_goals
    refine ha.seq ha.get fun _ => ?_
    split
    · exact ha.seq (ha.call _ _ _) fun _ => ha.record _
    · exact ha.call _ _ _

variable {run : Node → Eval η κ Unit}

/-- A statement moves the state like the blocks inside it, unless it declares something. -/
theorem statementWith {node : Node}
    (hr : ∀ field ∈ Grammar.blockPlaces node.kind, ∀ block,
      node.field? field = some block → Moves R R (run block))
    (hm : node.kind = .siardMetadata → Moves R R (Run.siardMetadata settings node)) :
    Moves R R (statementWith settings run node) := by
  refine Moves.orAt ?_ _
  split
  · exact ha.pure _
  · exact ha.discard (ha.bindParameters _ _)
  · exact ha.set _ _
  · exact ha.discard (ha.runScript _ _)
  · exact ha.executeSql _
  · rename_i hk
    exact hm hk
  · exact ha.siardOutput _ _
  · rename_i hk
    rw [hk] at hr
    exact ha.forLoop (hr .body (by decide))
  · exact ha.log _
  · exact ha.assert _
  · rename_i hk
    rw [hk] at hr
    exact ha.conditional hr
  · exact ha.fail _

theorem statements {children : List Child}
    (h : ∀ child ∈ children, Moves R R (Run.statementWith settings run child.2)) :
    Moves R R (statements settings run children) := by
  induction children with
  | nil => exact ha.pure _
  | cons child rest ih =>
    refine ha.seq (h child List.mem_cons_self) fun _ => ?_
    exact ih fun other ho => h other (List.mem_cons_of_mem child ho)

theorem block (hl : ∀ world ledger, R world { world with ledger }) (node : Node) :
    Moves R R (block settings node : Eval η κ Unit) := by
  unfold Run.block
  generalize node.height = height
  induction height generalizing node with
  | zero => exact ha.pure _
  | succ height ih =>
    apply ha.statements settings
    intro child _
    exact ha.statementWith settings (fun _ _ inner _ => ih inner) fun _ =>
      ha.siardMetadata hl settings child.2

end Admits

end ArchiveScript.Run
