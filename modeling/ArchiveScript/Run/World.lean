import ArchiveScript.Run.Host
import ArchiveScript.Run.Scope

/-! # The state of a run

A run changes its variables, its rows, what it has declared and the state of its host, and it
leaves a trace. A statement that fails leaves all that it had changed.
-/

namespace ArchiveScript

/-- The state of a run. -/
structure World (η κ : Type) where
  host : η
  scope : Scope := .root
  rows : RowsStore κ := .empty
  ledger : Ledger := .empty
  /-- The number of the connections opened so far. -/
  opened : Nat := 0
  /-- What can be seen of the run so far. -/
  trace : Array Event := #[]

/-- A part of a run. -/
abbrev Eval (η κ : Type) := ExceptT Failure (StateM (World η κ))

namespace Eval

variable {η κ : Type} {α : Type}

def fail (cause : Cause) : Eval η κ α := throw ⟨cause, none⟩

def failAt (span : Span) (cause : Cause) : Eval η κ α := throw ⟨cause, some span⟩

/-- A failure without a place is placed here. -/
def orAt (span : Span) (eval : Eval η κ α) : Eval η κ α := fun world =>
  match eval world with
  | (.error failure, world) => (.error (failure.orPlaced span), world)
  | done => done

/-- A failure is placed here. -/
def placed (span : Span) (eval : Eval η κ α) : Eval η κ α := fun world =>
  match eval world with
  | (.error failure, world) => (.error (failure.placed span), world)
  | done => done

/-- The outcome of a computation that changes nothing. -/
def settle (outcome : Except Failure α) : Eval η κ α := fun world => (outcome, world)

/-- Leaves something in the trace. -/
def record (event : Event) : Eval η κ Unit := modify fun world =>
  { world with trace := world.trace.push event }

/-- Calls the host; `cause` says what its failure means for the script. -/
def call (event : Event) (cause : String → Cause) (act : Act η α) : Eval η κ α := do
  record event
  fun world =>
    match act world.host with
    | (.ok a, host) => (.ok a, { world with host })
    | (.error error, host) => (.error ⟨cause error.message, none⟩, { world with host })

/-- An operation on the store of rows. -/
def onRows (operation : RowsStore κ → Except RowsError α × RowsStore κ) : Eval η κ α := fun world =>
  match operation world.rows with
  | (.ok a, rows) => (.ok a, { world with rows })
  | (.error error, rows) => (.error ⟨error.cause, none⟩, { world with rows })

/-- Takes in new rows. -/
def addRows (rows : Rows κ) : Eval η κ RowsId := fun world =>
  let (id, store) := world.rows.add rows
  (.ok id, { world with rows := store })

/-- Runs with the rows locked and frees them at the end, however that comes. -/
def locking [Cursor κ] (id : RowsId) (eval : Eval η κ α) : Eval η κ α := do
  onRows (·.lock id)
  fun world =>
    let (outcome, world) := eval world
    (outcome, { world with rows := world.rows.free id })

def onScope (operation : Scope → Except ScopeError Scope) : Eval η κ Unit := fun world =>
  match operation world.scope with
  | .ok scope => (.ok (), { world with scope })
  | .error error => (.error error.toFailure, world)

def bind (name : String) (value : Value) : Eval η κ Unit := onScope (·.bind name value)

def unbind (name : String) : Eval η κ Unit := onScope (·.unbind name)

def onLedger (operation : Ledger → Ledger) : Eval η κ Unit := modify fun world =>
  { world with ledger := operation world.ledger }

end Eval

namespace Node

variable {η κ : Type}

/-- The child at a place where there has to be one. -/
def need (node : Node) (field : Field) : Eval η κ Node :=
  match node.field? field with
  | some child => return child
  | none => Eval.failAt node.span (.missingField node.kind field)

/-- The text of a name. -/
def identifier (node : Node) : Eval η κ String :=
  if node.kind = .identifier then return node.text
  else Eval.failAt node.span (.unexpectedNode node.kind "place of an identifier")

end Node

/-- What a run is given besides its script. -/
structure Settings where
  /-- The values of the parameters. -/
  parameters : Dict String
  /-- The directory for scripts and archives. -/
  dir : Path

end ArchiveScript
