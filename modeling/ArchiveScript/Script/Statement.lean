import ArchiveScript.Script.Declaration

/-! # Statements

Each statement begins with its keyword on a line of its own and may own a block below it. Each
reader takes the reader of the blocks inside its statement.
-/

namespace ArchiveScript.Statement

open Expression
open Builder (fail leaf spanning spans)
open LineReader (onLine peek goto)

variable {r m : Type → Type} {ν : Type} [Builder m ν] [LineReader r m]

section

variable (block : BlockReader r ν)

/-- The statements below `header`; there has to be one. -/
def statements (header : Line) : r ν := do
  if ← hasBlock header then
    let items ← block (some header.indent) .statements
    let start := startOf (← spans) header items
    spanning .statementBlock start start items
  else
    fail (.expected "an indented block") (.between header.stop header.stop)

/-- A line of a property list: an expression after an equals sign, or a verbatim block. -/
def property (line : Line) : r ν := do
  let s := line.scan
  match s.nameOf? isPropertyPart with
  | none => fail (.expected "a property name") s.point
  | some (name, rest) =>
    let key ← leaf .identifier s.pos name
    let rest := rest.skipBlanks
    let value ← match rest.eat? ['='], rest.eat? [':'] with
      | some after, _ => onLine do
        let (value, after) ← basic after
        after.finish
        return value
      | none, some after => do
        onLine after.finish
        Verbatim.block line
      | none, none => fail (.expectedAfter "'=' or ':'" "the property name") rest.point
    spanning .keyValuePair s.pos line.trimmedStop
      [(some .key, key), (some .value, value)]

/-- A connection that began at `start`; the scan is at its address. -/
def connection (line : Line) (start : Nat) (s : Scan) : r ν := do
  let (url, s) ← onLine (basic s)
  let s := s.skipBlanks
  let properties ← match s.eatWord? "with".toList with
    | some rest => do
      onLine rest.blockColon
      if ← hasBlock line then
        let items ← block (some line.indent) .properties
        let first := startOf (← spans) line items
        pure [(some Field.properties, ← spanning .keyValuePairs first first items)]
      else
        fail (.expected "an indented list of properties") (.between s.pos s.pos)
    | none => do
      onLine s.finish
      pure []
  spanning .connection start s.pos ((some .url, url) :: properties)

/-- A query that began at `start`; the scan is after its opening parenthesis. -/
def query (line : Line) (start : Nat) (s : Scan) : r ν := do
  let (connection, s) ← onLine (s.identifier "a connection variable")
  let s := s.skipBlanks
  match s.eat? [')'] with
  | none => fail (.expectedSign ")") s.point
  | some rest =>
    onLine rest.blockColon
    let sql ← Verbatim.block line
    spanning .query start rest.pos [(some .connection, connection), (some .sql, sql)]

/-- A script whose output is the value, begun at `start`; the scan is at its interpreter. -/
def scriptResult (line : Line) (start : Nat) (s : Scan) : r ν := do
  let (interpreter, rest) ← onLine (basic s)
  onLine rest.blockColon
  let script ← Verbatim.block line
  spanning .scriptResult start rest.pos
    [(some .interpreter, interpreter), (some .script, script)]

/-- Passes over two words with blanks between them. -/
def eatWords? (first second : String) (s : Scan) : Option Scan := do
  let rest ← s.eatWord? first.toList
  if rest.rest.head?.any Text.isIndent then rest.skipBlanks.eatWord? second.toList else none

/-- Passes over the opening of a query. -/
def eatQuery? (s : Scan) : Option Scan := do
  let rest ← s.eatWord? "query".toList
  rest.skipBlanks.eat? ['(']

/-- What a variable is set to. Words that do not open one of the longer forms are variables. -/
def expression (line : Line) (s : Scan) : r ν := do
  let s := s.skipBlanks
  match eatWords? "connection" "to" s with
  | some rest => connection block line s.pos rest
  | none =>
    match eatQuery? s with
    | some rest => query line s.pos rest
    | none =>
      match eatWords? "execute" "using" s with
      | some rest => scriptResult line s.pos rest
      | none => onLine do
        let (value, rest) ← basic s
        rest.finish
        return value

def set (line : Line) (s : Scan) : r ν := do
  let (name, s) ← onLine (s.identifier "a variable name")
  let s := s.skipBlanks
  let value ← match s.eat? ['='], s.eat? [':'] with
    | some rest, _ => expression block line rest
    | none, some rest => do
      onLine rest.finish
      Verbatim.block line
    | none, none => fail (.expectedAfter "'=' or ':'" "the variable name") s.point
  spanning .set line.bodyStart line.trimmedStop
    [(some .name, name), (some .value, value)]

def execute (line : Line) (s : Scan) : r ν := do
  let s := s.skipBlanks
  match s.eatWord? "using".toList with
  | some rest =>
    let (interpreter, rest) ← onLine (basic rest)
    onLine rest.blockColon
    let script ← Verbatim.block line
    spanning .executeUsing line.bodyStart line.trimmedStop
      [(some .interpreter, interpreter), (some .script, script)]
  | none =>
    match s.eatWord? "SQL".toList with
    | some rest =>
      let rest ← onLine (rest.word "on")
      let (connection, rest) ← onLine (rest.identifier "a connection variable")
      onLine rest.blockColon
      let sql ← Verbatim.block line
      spanning .executeSql line.bodyStart line.trimmedStop
        [(some .connection, connection), (some .sql, sql)]
    | none => fail (.expectedAfter "'using' or 'SQL'" "'Execute'") s.point

/-- The variables of a loop after the first one, each behind a comma. -/
def moreVariables : Nat → Scan → m (List (Option Field × ν) × Scan)
  | 0, s => return ([], s.skipBlanks)
  | n + 1, s =>
    let s := s.skipBlanks
    match s.eat? [','] with
    | none => return ([], s)
    | some rest => do
      let (name, rest) ← rest.identifier "a loop variable"
      let (names, rest) ← moreVariables n rest
      return ((none, name) :: names, rest)

def forLoop (line : Line) (s : Scan) : r ν := do
  let (first, s) ← onLine (s.identifier "a loop variable")
  let (more, s) ← onLine (moreVariables s.rest.length s)
  let start := (← spans) first |>.start
  let names ← spanning .forVariables start start ((none, first) :: more)
  let s ← onLine (s.word "in")
  let (rows, s) ← onLine (basic s)
  onLine s.blockColon
  let body ← statements block line
  spanning .forLoop line.bodyStart line.trimmedStop
    [(some .loopVariables, names), (some .rows, rows), (some .body, body)]

/-- The other branch of a conditional, if its line comes next. -/
def otherwise (line : Line) : r (List (Option Field × ν)) := do
  skipIdle
  match ← peek with
  | [] => return []
  | next :: after =>
    if next.indent = line.indent then
      match next.scan.eatWord? "Else".toList with
      | some rest =>
        goto after
        onLine rest.blockColon
        return [(some .alternative, ← statements block next)]
      | none => return []
    else return []

def conditional (line : Line) (s : Scan) : r ν := do
  let (condition, s) ← onLine (comparison s)
  onLine s.blockColon
  let consequent ← statements block line
  let alternative ← otherwise block line
  spanning .conditional line.bodyStart line.trimmedStop
    ((some .condition, condition) :: (some .consequent, consequent) :: alternative)

def assertion (line : Line) (s : Scan) : r ν := onLine do
  let (condition, rest) ← comparison s
  rest.finish
  spanning .assert line.bodyStart line.trimmedStop [(some .condition, condition)]

def log (line : Line) (s : Scan) : r ν := do
  let value ← match s.eat? [':'] with
    | some rest => do
      onLine rest.finish
      Verbatim.block line
    | none => onLine do
      let (value, rest) ← basic s
      rest.finish
      return value
  spanning .log line.bodyStart line.trimmedStop [(some .value, value)]

def siard (line : Line) (s : Scan) : r ν := do
  let s := s.skipBlanks
  match s.eatWord? "metadata".toList with
  | some rest =>
    let rest ← onLine (rest.word "for")
    let (connection, rest) ← onLine (rest.identifier "a connection variable")
    onLine rest.blockColon
    Declaration.metadata block line connection
  | none =>
    match s.eatWord? "output".toList with
    | some rest => onLine do
      let (connection, rest) ← rest.identifier "a connection variable"
      let rest ← rest.word "to"
      let (file, rest) ← basic rest
      rest.finish
      spanning .siardOutput line.bodyStart line.trimmedStop
        [(some .connection, connection), (some .file, file)]
    | none => fail (.expectedAfter "'metadata' or 'output'" "'SIARD'") s.point

def parameters (line : Line) (topLevel : Bool) (s : Scan) : r ν :=
  if topLevel then do
    onLine s.blockColon
    Declaration.parameters block line
  else fail .nestedParameters (.between line.bodyStart line.trimmedStop)

def nop (line : Line) (s : Scan) : r ν := onLine do
  s.finish
  leaf .nop line.bodyStart (Text.trimEnd line.body)

/-- The readers of statements by their keywords. -/
def keywords (line : Line) (topLevel : Bool) : List (String × (Scan → r ν)) :=
  [("Parameters", parameters block line topLevel),
    ("Nop", nop line),
    ("Set", set block line),
    ("Execute", execute line),
    ("For", forLoop block line),
    ("If", conditional block line),
    ("Assert", assertion line),
    ("Log", log line),
    ("SIARD", siard block line)]

/-- A statement with the block that it owns. -/
def statement (line : Line) (topLevel : Bool) : r ν :=
  let s := line.scan
  match (keywords block line topLevel).findSome? fun (keyword, read) =>
      (s.eatWord? keyword.toList).map read with
  | some reading => reading
  | none =>
    let word := String.ofList (s.rest.takeWhile Char.isAlphanum)
    let complaint := if s.atWord "Else".toList then .looseElse else .unknownStatement word
    fail complaint (.between line.bodyStart line.trimmedStop)

end

end ArchiveScript.Statement
