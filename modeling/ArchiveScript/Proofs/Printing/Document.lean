import ArchiveScript.Proofs.Printing.Phrase
import ArchiveScript.Script.Declaration

/-! # Documents

Scripts as they are meant: statements with their blocks, apart from the text. A layout says how
far each block is indented. A document is printed one item to a line, and has the tree that it
should be read as.
-/

namespace ArchiveScript.Printing

open Node

/-- The margins of all blocks, by the numbers that lead from block to block. Each block is
indented deeper than the one around it. -/
structure Layout where
  margins : List Nat → List Char
  blank : ∀ path, ∀ c ∈ margins path, Text.isIndent c = true
  deeper : ∀ path number, (margins path).length < (margins (path ++ [number])).length

namespace Layout

def uniform (width : Nat) (h : 0 < width) : Layout where
  margins path := List.replicate (width * path.length) ' '
  blank _ c hc := by
    rw [List.eq_of_mem_replicate hc]
    rfl
  deeper path number := by
    simp only [List.length_replicate, List.length_append, List.length_singleton, Nat.mul_add]
    omega

def margin (layout : Layout) : List Char := layout.margins []

def inside (layout : Layout) (number : Nat) : Layout where
  margins path := layout.margins (number :: path)
  blank path := layout.blank (number :: path)
  deeper path := layout.deeper (number :: path)

end Layout

structure Item where
  head : List Char
  below : List (List Char)
  child : Child

def fields (children : List Child) : List Field := children.filterMap (·.1)

def linesOf (margin : List Char) (items : List Item) : List (List Char) :=
  items.flatMap fun item => (margin ++ item.head) :: item.below

def numbered {α : Type} (item : Nat → α → Item) : Nat → List α → List Item
  | _, [] => []
  | number, a :: rest => item number a :: numbered item (number + 2) rest

structure RawText where
  chars : List Char
  plain : '\n' ∉ chars
  closed : ¬['$', '{'] <:+: chars

/-- A line of a verbatim block. A dollar sign before a plain interpolation would make it a safe
one, and a carriage return at the end would belong to the line's terminator. -/
inductive RawLine where
  | last (text : RawText) (h : text.chars.getLast? ≠ some '\r')
  | plain (text : RawText) (h : text.chars.getLast? ≠ some '$') (value : Basic) (rest : RawLine)
  | safe (text : RawText) (value : Basic) (rest : RawLine)

def rawContent (chars : List Char) : List Child :=
  if chars.isEmpty then [] else [(none, terminal .rawContent chars)]

namespace RawLine

def print : RawLine → List Char
  | last text _ => text.chars
  | plain text _ value rest => text.chars ++ '$' :: '{' :: (value.print ++ '}' :: rest.print)
  | safe text value rest => text.chars ++ '$' :: '$' :: '{' :: (value.print ++ '}' :: rest.print)

def trees : RawLine → List Child
  | last text _ => rawContent (text.chars ++ ['\n'])
  | plain text _ value rest =>
    rawContent text.chars ++ (none, branch .interpolation [(none, value.tree)]) :: rest.trees
  | safe text value rest =>
    rawContent text.chars ++ (none, branch .safeInterpolation [(none, value.tree)]) :: rest.trees

end RawLine

structure RawEntry where
  blanks : Nat
  line : RawLine
  visible : ∃ c ∈ line.print, Text.isIndent c = false

/-- A verbatim block. Its first line is not indented any further, and its last line is not
blank. -/
inductive Raw where
  | empty
  | lines (first : RawLine) (h : ∃ c cs, first.print = c :: cs ∧ Text.isIndent c = false)
      (rest : List RawEntry)

namespace Raw

def print (margin : List Char) : Raw → List (List Char)
  | empty => []
  | lines first _ rest =>
    (margin ++ first.print) :: rest.flatMap fun entry =>
      List.replicate entry.blanks [] ++ [margin ++ entry.line.print]

def trees : Raw → List Child
  | empty => []
  | lines first _ rest =>
    first.trees ++ rest.flatMap fun entry =>
      List.replicate entry.blanks (none, terminal .rawContent ['\n']) ++ entry.line.trees

def tree (raw : Raw) : Node := branch .raw raw.trees

end Raw

inductive FieldValue where
  | basic (value : Basic)
  | raw (value : Raw)

namespace FieldValue

def head : FieldValue → List Char
  | basic value => ' ' :: value.print
  | raw _ => []

def lines (margin : List Char) : FieldValue → List (List Char)
  | basic _ => []
  | raw value => value.print margin

def tree : FieldValue → Node
  | basic value => value.tree
  | raw value => value.tree

end FieldValue

structure Parameter where
  name : Name
  description : Option Quoted

namespace Parameter

def item (parameter : Parameter) : Item where
  head := parameter.name.print ++ Quoted.print parameter.description
  below := []
  child := (none, branch .parameter
    ((some .name, parameter.name.tree) :: Quoted.trees parameter.description))

end Parameter

structure Parameters where
  list : List Parameter
  nonempty : list ≠ []

namespace Parameters

def print (layout : Layout) (parameters : Parameters) : List (List Char) :=
  linesOf layout.margin (parameters.list.map Parameter.item)

def tree (parameters : Parameters) : Node :=
  branch .parameters (parameters.list.map fun parameter => parameter.item.child)

end Parameters

structure Property where
  key : Key
  value : FieldValue

namespace Property

def head (property : Property) : List Char :=
  property.key.print ++ match property.value with
    | .basic value => ' ' :: '=' :: ' ' :: value.print
    | .raw _ => [':']

def child (property : Property) : Child :=
  (none, branch .keyValuePair [(some .key, property.key.tree), (some .value, property.value.tree)])

def item (layout : Layout) (number : Nat) (property : Property) : Item where
  head := property.head
  below := property.value.lines (layout.inside number).margin
  child := property.child

end Property

inductive Source where
  | basic (value : Basic)
  | connection (url : Basic)
  | connectionWith (url : Basic) (properties : List Property) (h : properties ≠ [])
  | query (database : Name) (sql : Raw)
  | scriptResult (interpreter : Basic) (script : Raw)

namespace Source

def head : Source → List Char
  | basic value => value.print
  | connection url => "connection to ".toList ++ url.print
  | connectionWith url _ _ => "connection to ".toList ++ (url.print ++ " with:".toList)
  | query database _ => "query(".toList ++ (database.print ++ "):".toList)
  | scriptResult interpreter _ => "execute using ".toList ++ (interpreter.print ++ [':'])

def lines (layout : Layout) : Source → List (List Char)
  | basic _ | connection _ => []
  | connectionWith _ properties _ =>
    linesOf layout.margin (numbered (Property.item layout) 0 properties)
  | query _ sql => sql.print layout.margin
  | scriptResult _ script => script.print layout.margin

def tree : Source → Node
  | basic value => value.tree
  | connection url => branch .connection [(some .url, url.tree)]
  | connectionWith url properties _ => branch .connection [(some .url, url.tree),
      (some .properties, branch .keyValuePairs (properties.map Property.child))]
  | query database sql =>
    branch .query [(some .connection, database.tree), (some .sql, sql.tree)]
  | scriptResult interpreter script =>
    branch .scriptResult [(some .interpreter, interpreter.tree), (some .script, script.tree)]

end Source

mutual

/-- A declaration of the given kind. It may have one description, on its line or in its block. -/
inductive Declared : Kind → Type
  | mk {kind : Kind} (name : Name) (description : Option Quoted)
      (items : DeclaredItems kind description.isSome) : Declared kind

/-- The block of a declaration, given whether there is a description before it. -/
inductive DeclaredItems : Kind → Bool → Type
  | nil {kind : Kind} {described : Bool} : DeclaredItems kind described
  | description {kind : Kind} (value : FieldValue) (rest : DeclaredItems kind true) :
      DeclaredItems kind false
  | nested {kind : Kind} {described : Bool} (keyword : String) (inner : Kind)
      (h : (keyword, inner) ∈ Declaration.nested kind) (item : Declared inner)
      (rest : DeclaredItems kind described) : DeclaredItems kind described

end

def DeclaredItems.colon {kind : Kind} {described : Bool} : DeclaredItems kind described → List Char
  | .nil => []
  | _ => [':']

def Declared.head {kind : Kind} (keyword : String) : Declared kind → List Char
  | .mk name description items =>
    keyword.toList ++ ' ' :: (name.print ++ (Quoted.print description ++ items.colon))

mutual

def Declared.tree {kind : Kind} : Declared kind → Node
  | .mk name description items =>
    branch kind ((some .name, name.tree) :: Quoted.trees description ++ items.trees)

def DeclaredItems.trees {kind : Kind} {described : Bool} :
    DeclaredItems kind described → List Child
  | .nil => []
  | .description value rest => (some .description, value.tree) :: rest.trees
  | .nested _ _ _ item rest => (none, item.tree) :: rest.trees

end

mutual

def Declared.lines {kind : Kind} (layout : Layout) : Declared kind → List (List Char)
  | .mk _ _ items => linesOf layout.margin (items.items layout 0)

def DeclaredItems.items {kind : Kind} {described : Bool} (layout : Layout) (number : Nat) :
    DeclaredItems kind described → List Item
  | .nil => []
  | .description value rest =>
    { head := "description:".toList ++ value.head
      below := value.lines (layout.inside number).margin
      child := (some .description, value.tree) } :: rest.items layout (number + 2)
  | .nested keyword _ _ item rest =>
    { head := item.head keyword
      below := item.lines (layout.inside number)
      child := (none, item.tree) } :: rest.items layout (number + 2)

end

inductive CommandItem where
  | title (value : FieldValue)
  | parameters (list : Parameters)
  | body (sql : Raw)

namespace CommandItem

def field : CommandItem → Field
  | title _ => .title
  | parameters _ => .parameters
  | body _ => .body

def tree : CommandItem → Node
  | title value => value.tree
  | parameters list => list.tree
  | body sql => sql.tree

def child (item : CommandItem) : Child := (some item.field, item.tree)

def head : CommandItem → List Char
  | title value => "Title:".toList ++ value.head
  | parameters _ => "Parameters:".toList
  | body _ => "SQL:".toList

def lines (layout : Layout) : CommandItem → List (List Char)
  | title value => value.lines layout.margin
  | parameters list => list.print layout
  | body sql => sql.print layout.margin

def item (layout : Layout) (number : Nat) (item : CommandItem) : Item where
  head := item.head
  below := item.lines (layout.inside number)
  child := item.child

end CommandItem

def titleTrees : Option Basic → List Child
  | none => []
  | some title => [(some .title, title.tree)]

/-- A command. It has one title, on its line or in its block, one body, and one list of parameters
at most. -/
structure Command where
  title : Option Basic
  items : List CommandItem
  once : (fields (titleTrees title ++ items.map CommandItem.child)).Nodup
  titled : (titleTrees title ++ items.map CommandItem.child).any (·.1 == some .title) = true
  bodied : (titleTrees title ++ items.map CommandItem.child).any (·.1 == some .body) = true

namespace Command

def head (command : Command) : List Char :=
  match command.title with
  | none => "Command:".toList
  | some title => "Command ".toList ++ (title.print ++ [':'])

def lines (layout : Layout) (command : Command) : List (List Char) :=
  linesOf layout.margin (numbered (CommandItem.item layout) 0 command.items)

def tree (command : Command) : Node :=
  branch .commandDeclaration (titleTrees command.title ++ command.items.map CommandItem.child)

end Command

inductive MetadataItem where
  | info (field : Field) (h : field ∈ Field.archiveInfo) (value : FieldValue)
  | schema (declared : Declared .siardSchema)
  | command (given : Command)

namespace MetadataItem

def child : MetadataItem → Child
  | info field _ value => (some field, value.tree)
  | schema declared => (none, declared.tree)
  | command given => (none, given.tree)

def head : MetadataItem → List Char
  | info field _ value => field.label.toList ++ ':' :: value.head
  | schema declared => declared.head "Schema"
  | command given => given.head

def lines (layout : Layout) : MetadataItem → List (List Char)
  | info _ _ value => value.lines layout.margin
  | schema declared => declared.lines layout
  | command given => given.lines layout

def item (layout : Layout) (number : Nat) (item : MetadataItem) : Item where
  head := item.head
  below := item.lines (layout.inside number)
  child := item.child

end MetadataItem

/-- The metadata of an archive, with each of its fields at most once. -/
structure Metadata where
  items : List MetadataItem
  nonempty : items ≠ []
  once : (fields (items.map MetadataItem.child)).Nodup

namespace Metadata

def lines (layout : Layout) (metadata : Metadata) : List (List Char) :=
  linesOf layout.margin (numbered (MetadataItem.item layout) 0 metadata.items)

end Metadata

inductive Simple where
  | nop
  | set (name : Name) (source : Source)
  | setRaw (name : Name) (value : Raw)
  | executeUsing (interpreter : Basic) (script : Raw)
  | executeSql (database : Name) (sql : Raw)
  | assert (condition : Comparison)
  | log (value : FieldValue)
  | metadata (database : Name) (contents : Metadata)
  | output (database : Name) (file : Basic)

namespace Simple

def head : Simple → List Char
  | nop => "Nop".toList
  | set name source => "Set ".toList ++ (name.print ++ " = ".toList ++ source.head)
  | setRaw name _ => "Set ".toList ++ (name.print ++ [':'])
  | executeUsing interpreter _ => "Execute using ".toList ++ (interpreter.print ++ [':'])
  | executeSql database _ => "Execute SQL on ".toList ++ (database.print ++ [':'])
  | assert condition => "Assert ".toList ++ condition.print
  | log (.basic value) => "Log ".toList ++ value.print
  | log (.raw _) => "Log:".toList
  | metadata database _ => "SIARD metadata for ".toList ++ (database.print ++ [':'])
  | output database file =>
    "SIARD output ".toList ++ (database.print ++ " to ".toList ++ file.print)

def lines (layout : Layout) : Simple → List (List Char)
  | nop | assert _ | output _ _ => []
  | set _ source => source.lines layout
  | setRaw _ value => value.print layout.margin
  | executeUsing _ script => script.print layout.margin
  | executeSql _ sql => sql.print layout.margin
  | log value => value.lines layout.margin
  | metadata _ contents => contents.lines layout

def tree : Simple → Node
  | nop => terminal .nop "Nop".toList
  | set name source => branch .set [(some .name, name.tree), (some .value, source.tree)]
  | setRaw name value => branch .set [(some .name, name.tree), (some .value, value.tree)]
  | executeUsing interpreter script =>
    branch .executeUsing [(some .interpreter, interpreter.tree), (some .script, script.tree)]
  | executeSql database sql =>
    branch .executeSql [(some .connection, database.tree), (some .sql, sql.tree)]
  | assert condition => branch .assert [(some .condition, condition.tree)]
  | log value => branch .log [(some .value, value.tree)]
  | metadata database contents => branch .siardMetadata
      ((some .connection, database.tree) :: contents.items.map MetadataItem.child)
  | output database file =>
    branch .siardOutput [(some .connection, database.tree), (some .file, file.tree)]

end Simple

mutual

inductive Stmt where
  | simple (statement : Simple)
  | forLoop (first : Name) (more : List Name) (rows : Basic) (body : Block)
  | conditional (condition : Comparison) (consequent : Block)
  | alternative (condition : Comparison) (consequent otherwise : Block)

inductive Block where
  | one (stmt : Stmt)
  | cons (stmt : Stmt) (rest : Block)

end

def moreNames (names : List Name) : List Char := names.flatMap fun name => ',' :: ' ' :: name.print

namespace Stmt

def head : Stmt → List Char
  | simple statement => statement.head
  | forLoop first more rows _ =>
    "For ".toList ++ (first.print ++ (moreNames more ++ (" in ".toList ++ (rows.print ++ [':']))))
  | conditional condition _ | alternative condition _ _ =>
    "If ".toList ++ (condition.print ++ [':'])

end Stmt

mutual

def Stmt.tree : Stmt → Node
  | .simple statement => statement.tree
  | .forLoop first more rows body => branch .forLoop
      [(some .loopVariables, branch .forVariables
        ((none, first.tree) :: more.map fun name => (none, name.tree))),
        (some .rows, rows.tree), (some .body, branch .statementBlock body.trees)]
  | .conditional condition consequent => branch .conditional
      [(some .condition, condition.tree),
        (some .consequent, branch .statementBlock consequent.trees)]
  | .alternative condition consequent otherwise => branch .conditional
      [(some .condition, condition.tree),
        (some .consequent, branch .statementBlock consequent.trees),
        (some .alternative, branch .statementBlock otherwise.trees)]

def Block.trees : Block → List Child
  | .one stmt => [(none, stmt.tree)]
  | .cons stmt rest => (none, stmt.tree) :: rest.trees

end

mutual

def Stmt.lines (layout : Layout) (number : Nat) : Stmt → List (List Char)
  | .simple statement => statement.lines (layout.inside number)
  | .forLoop _ _ _ body =>
    linesOf (layout.inside number).margin (body.items (layout.inside number) 0)
  | .conditional _ consequent =>
    linesOf (layout.inside number).margin (consequent.items (layout.inside number) 0)
  | .alternative _ consequent otherwise =>
    linesOf (layout.inside number).margin (consequent.items (layout.inside number) 0) ++
      (layout.margin ++ "Else:".toList) ::
        linesOf (layout.inside (number + 1)).margin (otherwise.items (layout.inside (number + 1)) 0)

def Block.items (layout : Layout) (number : Nat) : Block → List Item
  | .one stmt =>
    [{ head := stmt.head, below := stmt.lines layout number, child := (none, stmt.tree) }]
  | .cons stmt rest =>
    { head := stmt.head, below := stmt.lines layout number, child := (none, stmt.tree) } ::
      rest.items layout (number + 2)

end

inductive TopItem where
  | stmt (statement : Stmt)
  | parameters (list : Parameters)

namespace TopItem

def head : TopItem → List Char
  | stmt statement => statement.head
  | parameters _ => "Parameters:".toList

def lines (layout : Layout) (number : Nat) : TopItem → List (List Char)
  | stmt statement => statement.lines layout number
  | parameters list => list.print (layout.inside number)

def child : TopItem → Child
  | stmt statement => (none, statement.tree)
  | parameters list => (none, list.tree)

def item (layout : Layout) (number : Nat) (item : TopItem) : Item where
  head := item.head
  below := item.lines layout number
  child := item.child

end TopItem

/-- A script. -/
abbrev Document := List TopItem

namespace Document

def print (layout : Layout) (document : Document) : List Char :=
  (linesOf layout.margin (numbered (TopItem.item layout) 0 document)).flatMap (· ++ ['\n'])

def tree (document : Document) : Node := branch .sourceFile (document.map TopItem.child)

end Document

end ArchiveScript.Printing
