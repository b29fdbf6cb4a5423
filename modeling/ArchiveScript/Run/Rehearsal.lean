import ArchiveScript.Run.Statement

/-! # Rehearsals

A host that has nothing outside. It answers queries and scripts from what it was told, knows which
reports exist, and fails where it was told to.
-/

namespace ArchiveScript

/-- How a script answers. -/
inductive ScriptAnswer where
  | output (text : String)
  /-- The script ends with a status other than zero. -/
  | failure (status : Int) (stderr : String)

/-- What a rehearsal was told, and the reports that exist. -/
structure Rehearsal where
  /-- The columns and rows of queries. -/
  results : Dict (Nat × List Row) := .empty
  /-- The statements that fail. -/
  sqlFailures : Dict String := .empty
  /-- Whether every connection is refused. -/
  refuses : Bool := false
  /-- The faults of the cursors of queries. -/
  cursorFaults : List (String × CursorFault) := []
  scripts : Dict ScriptAnswer := .empty
  /-- The components of the paths of the reports. -/
  reports : List (List String) := []
  extractFailure : Option String := none
  adjustFailure : Option String := none
  generateFailure : Option String := none
  removeFailure : Option String := none

namespace Rehearsal

/-- Fails if there is a message to fail with. -/
def failing (message : Option String) : Act Rehearsal Unit :=
  match message with
  | some message => throw ⟨message⟩
  | none => return

/-- Statements and scripts are known by their texts without blanks around them. -/
def key (text : String) : String := Text.stripped text

def addReport (rehearsal : Rehearsal) (path : Path) : Rehearsal :=
  { rehearsal with reports := Path.components path :: rehearsal.reports }

def hasReport (rehearsal : Rehearsal) (path : Path) : Bool :=
  rehearsal.reports.contains (Path.components path)

def eraseReport (rehearsal : Rehearsal) (path : Path) : Rehearsal :=
  { rehearsal with reports := rehearsal.reports.filter (· != Path.components path) }

/-- The cursor of a query. A query that nothing was told of has one column and no rows. -/
def cursorOf (rehearsal : Rehearsal) (sql : String) : FaultyCursor TableCursor :=
  let (columns, rows) := (rehearsal.results.get? (key sql)).getD (1, [])
  let fault := (rehearsal.cursorFaults.find? (·.1 == key sql)).map (·.2)
  ⟨{ columns, rows := rows.toArray }, fault⟩

def answer : ScriptAnswer → Except HostError String
  | .output text => .ok text
  | .failure status stderr =>
    .error ⟨Text.stripped ("Exit value: " ++ Text.ofInt status ++ "\n" ++ stderr)⟩

instance : Host Rehearsal (FaultyCursor TableCursor) where
  connect url properties := do
    if (← get).refuses then throw ⟨"cannot connect to " ++ url⟩
    return ⟨url, properties⟩
  update _ sql _ := do failing ((← get).sqlFailures.get? (key sql))
  query _ sql _ := do
    failing ((← get).sqlFailures.get? (key sql))
    return (← get).cursorOf sql
  runScript _ script _ := do
    match (← get).scripts.get? (key script) with
    | none => return ""
    | some known =>
      match answer known with
      | .ok text => return text
      | .error error => throw error
  extract _ _ := do failing (← get).extractFailure
  adjust _ _ _ := do failing (← get).adjustFailure
  writeReport path _ := do
    failing (← get).generateFailure
    modify (·.addReport path)
  removeReport path := do
    failing (← get).removeFailure
    let existed := (← get).hasReport path
    modify (·.eraseReport path)
    return existed

end Rehearsal

end ArchiveScript
