import ArchiveScript.Proofs.Run.Parts

/-! # The items of a metadata block

A metadata block declares its items one after the other: the fields of the archive that it gives,
always in one order, and then its schemas and commands in the order of the source. Each item is
evaluated, which declares nothing, and then entered into the ledger at once.
-/

namespace ArchiveScript

/-- What one item of a metadata block declares. -/
inductive LedgerEntry where
  | archive (outline : Outline ArchiveKind)
  | command (outline : Outline CommandKind)

namespace LedgerEntry

def archive? : LedgerEntry → Option (Outline ArchiveKind)
  | archive outline => some outline
  | command _ => none

def command? : LedgerEntry → Option (Outline CommandKind)
  | archive _ => none
  | command outline => some outline

end LedgerEntry

def Ledger.enter (ledger : Ledger) (connection : String) : LedgerEntry → Ledger
  | .archive outline => ledger.declare connection outline
  | .command outline => ledger.declareCommand connection outline

inductive Declarable where
  | info (field : Field) (value : Node)
  | schema (node : Node)
  | command (node : Node)

def Declarable.of? (child : Child) : Option Declarable :=
  match child.2.kind with
  | .siardSchema => some (.schema child.2)
  | .commandDeclaration => some (.command child.2)
  | _ => none

namespace Node

def infoItems (node : Node) (fields : List Field) : List Declarable :=
  fields.filterMap fun field => (node.field? field).map (.info field)

/-- The items of a metadata block, in the order in which they are declared. -/
def items (node : Node) : List Declarable :=
  node.infoItems [.dbname, .description, .archiver, .archiverContact, .dataOwner,
    .dataOriginTimespan, .lobFolder] ++ node.children.filterMap Declarable.of?

def connectionName? (node : Node) : Option String := do
  let child ← node.field? .connection
  if child.kind = .identifier then some child.text else none

end Node

namespace Run

open Eval

variable {η κ : Type} [Cursor κ]

/-- What holds between the ledgers before and after a part admits everything else. -/
theorem Admits.of_ledger {S : Ledger → Ledger → Prop} (hr : ∀ ledger, S ledger ledger)
    (ht : ∀ {before between after}, S before between → S between after → S before after) :
    Admits fun world after : World η κ => S world.ledger after.ledger where
  toComposes := .of_trans (fun _ => hr _) ht
  outside _ _ _ _ := hr _
  scope _ _ := hr _
  add _ _ _ := hr _
  size _ _ := hr _
  equal _ _ _ := hr _
  locking {x} id h := by
    refine .of_after fun world => ?_
    rw [Eval.locking, run_bind, Eval.onRows]
    rcases world.rows.lock id with ⟨_ | _, locked⟩
    · exact hr _
    · exact (h fun _ => hr _).after { world with rows := locked }

def SameLedger (world after : World η κ) : Prop := after.ledger = world.ledger

theorem SameLedger.admits : Admits (SameLedger : World η κ → World η κ → Prop) :=
  .of_ledger (S := fun before after => after = before) (fun _ => rfl) fun hb ha => ha.trans hb

section

variable (settings : Settings)

def evaluate : Declarable → Eval η κ LedgerEntry
  | .info field value => do
    return .archive (.leaf .info field.label
      (← text (← get).scope ("The " ++ field.label ++ " field") value))
  | .schema node => do return .archive (← declaration (← get).scope node)
  | .command node => do return .command (← Run.command settings node)

/-- Evaluates the items and enters each of them when it is complete. -/
def declareAll (connection : String) : List Declarable → Eval η κ Unit
  | [] => return
  | item :: rest => do
    let entry ← evaluate settings item
    onLedger (·.enter connection entry)
    declareAll connection rest

theorem evaluate_quiet (item : Declarable) :
    Moves SameLedger SameLedger (evaluate settings item : Eval η κ LedgerEntry) := by
  have ha : Admits (SameLedger : World η κ → World η κ → Prop) := SameLedger.admits
  cases item with
  | info field value =>
    exact ha.seq ha.get fun _ => ha.seq (ha.counts.text _ _ _) fun _ => ha.pure _
  | schema node => exact ha.seq ha.get fun _ => ha.seq (ha.declaration _ _) fun _ => ha.pure _
  | command node => exact ha.seq (ha.command _ _) fun _ => ha.pure _

theorem declareAll_append (connection : String) (items more : List Declarable) :
    (declareAll settings connection (items ++ more) : Eval η κ Unit) =
      declareAll settings connection items >>= fun _ => declareAll settings connection more := by
  induction items with
  | nil => rw [List.nil_append, declareAll, pure_bind]
  | cons item rest ih => simp only [List.cons_append, declareAll, ih, bind_assoc]

theorem declareInfo_eq (connection : String) (node : Node) (fields : List Field) :
    (declareInfo connection node fields : Eval η κ Unit) =
      declareAll settings connection (node.infoItems fields) := by
  induction fields with
  | nil => rfl
  | cons field rest ih =>
    rw [declareInfo, ih]
    unfold Node.infoItems
    rw [List.filterMap_cons]
    cases hf : node.field? field with
    | none => rfl
    | some value =>
      simp only [Option.map_some, declareAll, evaluate, bind_assoc, pure_bind]
      rfl

theorem declareItems_eq (connection : String) (children : List Child) :
    (declareItems settings connection children : Eval η κ Unit) =
      declareAll settings connection (children.filterMap Declarable.of?) := by
  induction children with
  | nil => rfl
  | cons child rest ih =>
    rw [declareItems_cons, ih, List.filterMap_cons, declareItem, Declarable.of?]
    cases child.2.kind
    case siardSchema =>
      simp only [declareAll, evaluate, bind_assoc, pure_bind]
      rfl
    case commandDeclaration =>
      simp only [declareAll, evaluate, bind_assoc, pure_bind]
      rfl
    all_goals simp only [pure_bind]

/-- A metadata block gives its connection a root and declares its items. -/
theorem siardMetadata_eq (node : Node) :
    (siardMetadata settings node : Eval η κ Unit) = (do
      let connection ← (← node.need .connection).identifier
      onLedger (·.touch connection)
      declareAll settings connection node.items) := by
  simp only [siardMetadata, declareInfo_eq settings, declareItems_eq, Node.items,
    declareAll_append, Field.archiveInfo]

end

end Run

end ArchiveScript
