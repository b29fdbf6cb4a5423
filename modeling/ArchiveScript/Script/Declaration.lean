import ArchiveScript.Script.Verbatim

/-! # Declarations of archive metadata

The items of a metadata block: fields of the archive, schemas with what they contain, and
commands. Each reader takes the reader of the blocks inside its item.
-/

namespace ArchiveScript.Declaration

open Expression
open Builder (fail spanning spans)
open LineReader (onLine note)

/-- The declarations that a declaration may hold, by their keywords. -/
def nested : Kind → List (String × Kind)
  | .siardSchema => [("Type", .siardType), ("Table", .siardTable), ("View", .siardView)]
  | .siardTable => [("Column", .siardColumn), ("Key", .siardKey), ("Check", .siardCheck)]
  | .siardView => [("Column", .siardColumn)]
  | .siardColumn => [("Field", .siardField)]
  | .siardField => [("Field", .siardField)]
  | _ => []

variable {r m : Type → Type} {ν : Type} [Builder m ν] [LineReader r m]

/-- The value of a field: an expression on its line or a verbatim block below it. -/
def fieldValue (line : Line) (s : Scan) : r ν :=
  let s := s.skipBlanks
  if s.rest.isEmpty then Verbatim.block line
  else onLine do
    let (value, rest) ← basic s
    rest.finish
    return value

/-- A line of a parameter list. -/
def parameter (line : Line) : r ν := onLine do
  let (name, s) ← line.scan.identifier "a parameter name"
  let (description, s) ← s.description?
  s.finish
  let described := description.toList.map fun node => (some Field.description, node)
  spanning .parameter line.bodyStart line.trimmedStop ((some .name, name) :: described)

section

variable (block : BlockReader r ν)

/-- The parameter list below `header`. -/
def parameters (header : Line) : r ν := do
  if ← hasBlock header then
    let items ← block (some header.indent) .parameters
    spanning .parameters header.bodyStart header.trimmedStop items
  else
    fail (.expected "an indented list of parameters")
      (.between header.trimmedStop header.trimmedStop)

/-- A declaration after its keyword: a name, a description and a block, the last two of which
may be left out. -/
def declaration (line : Line) (kind : Kind) (s : Scan) : r ν := do
  let (name, s) ← onLine (s.identifier "a name")
  let (description, s) ← onLine s.description?
  let s := s.skipBlanks
  let described := description.toList.map fun node => (some Field.description, node)
  let items ← match s.eat? [':'] with
    | some rest => do
      onLine rest.finish
      if ← hasBlock line then block (some line.indent) (.declaration kind) else pure []
    | none => do
      onLine s.finish
      pure []
  let children := (some .name, name) :: described ++ items
  note (repeatedFields (← spans) [] children)
  spanning kind line.bodyStart s.pos children

/-- An item of the block of a declaration. -/
def declarationItem (line : Line) (owner : Kind) : r (Option Field × ν) :=
  let s := line.scan
  match s.eatWord? "description".toList with
  | some rest =>
    let rest := rest.skipBlanks
    match rest.eat? [':'] with
    | some rest => return (some .description, ← fieldValue line rest)
    | none => fail (.expectedAfter "':'" "'description'") rest.point
  | none =>
    let allowed := nested owner
    match allowed.findSome? fun (keyword, kind) =>
        (s.eatWord? keyword.toList).map fun rest => (kind, rest) with
    | some (kind, rest) => return (none, ← declaration block line kind rest)
    | none =>
      let complaint := if allowed.isEmpty then .onlyDescription owner
        else .unknownDeclaration (allowed.map (·.1)) owner
      fail complaint s.restSpan

/-- A command after its keyword. The title stands on the line or in the block. -/
def command (line : Line) (s : Scan) : r ν := do
  let start := line.bodyStart
  let stop := line.trimmedStop
  let s := s.skipBlanks
  let title ← onLine <| match s.eat? [':'] with
    | some rest => do
      rest.finish
      return []
    | none => do
      let (title, rest) ← basic s
      rest.blockColon
      return [(some Field.title, title)]
  if ← hasBlock line then
    let items ← block (some line.indent) .command
    let children := title ++ items
    note (repeatedFields (← spans) [] children)
    if !children.any (·.1 == some .title) then
      fail .commandTitle (.between start stop)
    else if !children.any (·.1 == some .body) then
      fail .commandBody (.between start stop)
    else spanning .commandDeclaration start stop children
  else
    fail (.expected "an indented command block") (.between stop stop)

/-- An item of the block of a command. -/
def commandItem (line : Line) : r (Option Field × ν) :=
  let s := line.scan
  match s.eatWord? "Title".toList with
  | some rest =>
    let rest := rest.skipBlanks
    match rest.eat? [':'] with
    | some rest => return (some .title, ← fieldValue line rest)
    | none => fail (.expectedAfter "':'" "'Title'") rest.point
  | none =>
    match s.eatWord? "Parameters".toList with
    | some rest => do
      onLine rest.blockColon
      return (some .parameters, ← parameters block line)
    | none =>
      match s.eatWord? "SQL".toList with
      | some rest => do
        onLine rest.blockColon
        return (some .body, ← Verbatim.block line)
      | none => fail .unknownCommandItem s.restSpan

/-- A field of the archive with the scan after its colon. -/
def archiveField? (s : Scan) : Option (Field × Scan) := do
  let (word, rest) ← s.name?
  let field ← Field.archiveInfo? (String.ofList word)
  let rest ← rest.skipBlanks.eat? [':']
  return (field, rest)

/-- An item of a metadata block. -/
def metadataItem (line : Line) : r (Option Field × ν) :=
  let s := line.scan
  match s.eatWord? "Schema".toList with
  | some rest => return (none, ← declaration block line .siardSchema rest)
  | none =>
    match s.eatWord? "Command".toList with
    | some rest => return (none, ← command block line rest)
    | none =>
      match archiveField? s with
      | some (field, rest) => return (some field, ← fieldValue line rest)
      | none => fail .unknownMetadata s.restSpan

/-- The metadata block below `line`, for the connection that its header names. -/
def metadata (line : Line) (connection : ν) : r ν := do
  if ← hasBlock line then
    let items ← block (some line.indent) .metadata
    let children := (some .connection, connection) :: items
    note (repeatedFields (← spans) [] children)
    spanning .siardMetadata line.bodyStart line.trimmedStop children
  else
    fail (.expected "an indented metadata block")
      (.between line.trimmedStop line.trimmedStop)

end

end ArchiveScript.Declaration
