import ArchiveScript.Run.Expression

/-! # Running statements

Statements run one after the other. What a statement does outside goes through the host, and is
traced. A failure that has no place yet gets that of its statement.
-/

namespace ArchiveScript.Run

open Eval

/-- The kind of entry that a declaration stands for. -/
def declarationKind? : Kind → Option ArchiveKind
  | .siardSchema => some .schema
  | .siardType => some .type
  | .siardTable => some .table
  | .siardColumn => some .column
  | .siardField => some .field
  | .siardKey => some .key
  | .siardCheck => some .check
  | .siardView => some .view
  | _ => none

section

variable {η κ : Type} [Cursor κ] [Host η κ] (settings : Settings)

/-- Binds the parameters of a list to their values; a parameter without a value is unbound. The
entries of the parameters are what a command keeps of them. -/
def bindParameters : List Child → Eval η κ (List (Outline CommandKind))
  | [] => return []
  | (_, parameter) :: rest => do
    if parameter.kind ≠ .parameter then
      failAt parameter.span (.unexpectedNode parameter.kind "a parameter list")
    let name ← (← parameter.need .name).identifier
    let description := ((parameter.field? .description).map Node.text).getD ""
    match settings.parameters.get? name with
    | some value => bind name (.text value)
    | none => unbind name
    return .leaf .parameter name description :: (← bindParameters rest)

def parameters (node : Node) : Eval η κ (List (Outline CommandKind)) :=
  bindParameters settings node.children

/-- The connection that a node names. -/
def connectionOf (scope : Scope) (node : Node) : Eval η κ Connection := do
  let nameNode ← node.need .connection
  let name ← nameNode.identifier
  match scope.resolve name with
  | none => fail (.undefinedVariable name)
  | some value =>
    placed nameNode.span (settle (value.expectConnection ("The variable '" ++ name ++ "'")))

/-- Runs the script of a node and gives its output. -/
def runScript (node : Node) : Eval η κ String := do
  let scope := (← get).scope
  let interpreter ← basicText scope "The interpreter" (← node.need .interpreter)
  let script ← raw scope .text (← node.need .script)
  call (.script interpreter script.text settings.dir) .script
    (Host.runScript interpreter script.text settings.dir)

/-- The properties of a connection. Of those with one name the last one counts. -/
def propertiesFrom (scope : Scope) (properties : Dict String) : List Child → Eval η κ (Dict String)
  | [] => return properties
  | (_, pair) :: rest => do
    let key ← (← pair.need .key).identifier
    let valueNode ← pair.need .value
    let value ← orAt pair.span (text scope ("The property '" ++ key ++ "'") valueNode)
    propertiesFrom scope (properties.insert key value) rest

/-- Opens a connection, which gets the next serial number. -/
def connect (node : Node) : Eval η κ Connection := do
  let scope := (← get).scope
  let url ← basicText scope "The URL" (← node.need .url)
  let properties ← match node.field? .properties with
    | some pairs => propertiesFrom scope .empty pairs.children
    | none => pure .empty
  let link ← call (.connect url properties) .sql (Host.connect url properties)
  let connection : Connection := ⟨(← get).opened, link.url, link.properties⟩
  modify fun world => { world with opened := world.opened + 1 }
  record (.opened connection)
  return connection

/-- Asks a connection for rows. -/
def query (node : Node) : Eval η κ RowsId := do
  let scope := (← get).scope
  let connection ← connectionOf scope node
  let sql ← raw scope .sql (← node.need .sql)
  let cursor ← call (.query connection sql.text sql.args) .sql
    (Host.query connection sql.text sql.args)
  addRows (.live cursor)

/-- What a variable is set to. -/
def expression (node : Node) : Eval η κ Value :=
  match node.kind with
  | .connection => return .connection (← connect node)
  | .query => return .rows (← query node)
  | .scriptResult => return .text (withoutFinalFeed (← runScript settings node))
  | .raw => do return .text (← raw (← get).scope .text node).text
  | _ => do basic (← get).scope node

def set (node : Node) : Eval η κ Unit := do
  let name ← (← node.need .name).identifier
  let value ← expression settings (← node.need .value)
  bind name value

def executeSql (node : Node) : Eval η κ Unit := do
  let scope := (← get).scope
  let connection ← connectionOf scope node
  let sql ← raw scope .sql (← node.need .sql)
  call (.update connection sql.text sql.args) .sql (Host.update connection sql.text sql.args)

def log (node : Node) : Eval η κ Unit := do
  let scope := (← get).scope
  let valueNode ← node.need .value
  let message ← if valueNode.kind = .raw then
      pure (← raw scope .text valueNode).text
    else do
      let value ← basic scope valueNode
      let value ← orAt valueNode.span
        (settle (value.accept [.text, .integer] "A log message"))
      pure value.render
  record (.log message)

def assert (node : Node) : Eval η κ Unit := do
  if !(← comparison (← get).scope (← node.need .condition)) then
    failAt node.span .assertion

/-- A declaration with the declarations inside it. -/
def declarationWith (inner : Node → Eval η κ (Outline ArchiveKind)) (scope : Scope) (node : Node) :
    Eval η κ (Outline ArchiveKind) := do
  match declarationKind? node.kind with
  | none => failAt node.span (.unexpectedNode node.kind "archive metadata")
  | some kind =>
    let name ← (← node.need .name).identifier
    let description ← match node.field? .description with
      | none => pure ""
      | some child =>
        if child.kind = .shortDescription then pure child.text
        else text scope "A description" child
    let nested := node.children.filter fun child => (declarationKind? child.2.kind).isSome
    let entries ← orAt node.span (nested.mapM fun child => inner child.2)
    return .mk kind name description entries

/-- A declaration in a tree of at most the given height. -/
def declarationWithin (scope : Scope) : Nat → Node → Eval η κ (Outline ArchiveKind)
  | 0, node => failAt node.span (.unexpectedNode node.kind "archive metadata")
  | height + 1, node => declarationWith (declarationWithin scope height) scope node

def declaration (scope : Scope) (node : Node) : Eval η κ (Outline ArchiveKind) :=
  declarationWithin scope node.height node

/-- A command. Its parameters are bound like those of the script; in its body they stand for
themselves. -/
def command (node : Node) : Eval η κ (Outline CommandKind) := do
  let title ← text (← get).scope "The command title" (← node.need .title)
  let entries ← match node.field? .parameters with
    | some list => parameters settings list
    | none => pure []
  let scope := (← get).scope.command (entries.map Outline.name)
  let body ← raw scope .command (← node.need .body)
  return .mk .command "" title (entries ++ [.leaf .sql "" body.text])

/-- Declares the fields of an archive that a node gives. -/
def declareInfo (connection : String) (node : Node) : List Field → Eval η κ Unit
  | [] => return
  | field :: rest => do
    match node.field? field with
    | none => pure ()
    | some valueNode =>
      let value ← text (← get).scope ("The " ++ field.label ++ " field") valueNode
      onLedger (·.declare connection (.leaf .info field.label value))
    declareInfo connection node rest

/-- Declares the schemas and the commands of a metadata block, each when it is complete. -/
def declareItems (connection : String) : List Child → Eval η κ Unit
  | [] => return
  | (_, child) :: rest => do
    match child.kind with
    | .siardSchema =>
      let schema ← declaration (← get).scope child
      onLedger (·.declare connection schema)
    | .commandDeclaration =>
      let command ← command settings child
      onLedger (·.declareCommand connection command)
    | _ => pure ()
    declareItems connection rest

def siardMetadata (node : Node) : Eval η κ Unit := do
  let connection ← (← node.need .connection).identifier
  onLedger (·.touch connection)
  declareInfo connection node Field.archiveInfo
  declareItems settings connection node.children

/-- The extension of reports. -/
def reportExtension : String := "roae"

/-- Extracts an archive, puts in the metadata that were declared for it, and writes the report on
its commands, or deletes an old one if there are none. -/
def siardOutput (node : Node) : Eval η κ Unit := do
  let name ← (← node.need .connection).identifier
  let scope := (← get).scope
  let connection ← connectionOf scope node
  let file ← text scope "The file name" (← node.need .file)
  let path := Path.join settings.dir file
  let report := Path.withExtension path reportExtension
  call (.extract connection path) .archive (Host.extract connection path)
  match (← get).ledger.archive? name with
  | some metadata =>
    call (.adjust path metadata connection) .archive (Host.adjust path metadata connection)
  | none => pure ()
  match (← get).ledger.commands name with
  | [] =>
    let existed ← call (.remove report) .archive (Host.removeReport report)
    record (.removed existed)
  | commands => call (.generate report commands) .archive (Host.writeReport report commands)

/-- Binds the variables of a loop to the cells of a row; a variable without a cell is unbound. -/
def bindCells : List String → Row → Eval η κ Unit
  | [], _ => return
  | name :: names, row => do
    match row with
    | some cell :: _ => bind name (.text cell)
    | _ => unbind name
    bindCells names row.tail

/-- Runs `body` for each row that is left of a traversal. -/
def forRows (rows : RowsId) (names : List String) (body : Eval η κ Unit) : Nat → Eval η κ Unit
  | 0 => return
  | rounds + 1 => do
    match ← onRows (·.next rows) with
    | none => return
    | some row =>
      bindCells names row
      body
      forRows rows names body rounds

section

-- The way the blocks inside a statement are run.
variable (block : Node → Eval η κ Unit)

def forLoop (node : Node) : Eval η κ Unit := do
  let names ← (← node.need .loopVariables).children.mapM fun child => child.2.identifier
  let rowsNode ← node.need .rows
  let source ← basic (← get).scope rowsNode
  let rows ← orAt rowsNode.span (settle (source.expectRows "The loop source"))
  let body ← node.need .body
  locking rows do
    forRows rows names (block body) ((← get).rows.roundLimit rows)

def conditional (node : Node) : Eval η κ Unit := do
  if ← comparison (← get).scope (← node.need .condition) then
    block (← node.need .consequent)
  else match node.field? .alternative with
    | some alternative => block alternative
    | none => return

def statementWith (node : Node) : Eval η κ Unit := orAt node.span <|
  match node.kind with
  | .nop => return
  | .parameters => discard (parameters settings node)
  | .set => set settings node
  | .executeUsing => discard (runScript settings node)
  | .executeSql => executeSql node
  | .siardMetadata => siardMetadata settings node
  | .siardOutput => siardOutput settings node
  | .forLoop => forLoop block node
  | .log => log node
  | .assert => assert node
  | .conditional => conditional block node
  | other => fail (.unexpectedNode other "a statement block")

/-- Runs statements in order. -/
def statements : List Child → Eval η κ Unit
  | [] => return
  | (_, node) :: rest => do
    statementWith settings block node
    statements rest

end

/-- Runs the statements of a block in a tree of at most the given height. -/
def blockWithin : Nat → Node → Eval η κ Unit
  | 0, _ => return
  | height + 1, node => statements settings (blockWithin height) node.children

/-- Runs the statements of a block. -/
def block (node : Node) : Eval η κ Unit := blockWithin settings node.height node

/-- Runs a script. -/
def script (tree : Node) : Eval η κ Unit :=
  if tree.kind = .sourceFile then block settings tree
  else failAt tree.span (.unexpectedNode tree.kind "the script root")

end

end ArchiveScript.Run
