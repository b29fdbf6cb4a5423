import ArchiveScript.Dict
import ArchiveScript.Text.Integer
import ArchiveScript.Text.Quoted

/-! # Values

What a variable can hold. There are no conversions but the ones that a script asks for: each
operation says which kinds of values it takes.
-/

namespace ArchiveScript

/-- The name of a rows value in the store of a run. -/
abbrev RowsId := Nat

/-- An open connection. Two connections are the same if they have the same serial number. -/
structure Connection where
  serial : Nat
  url : String
  properties : Dict String
  deriving DecidableEq, Repr

/-- A value of a script. -/
inductive Value where
  | text (s : String)
  | integer (n : Int)
  | rows (id : RowsId)
  | connection (c : Connection)
  /-- A parameter of a command, whose value is given when the command is run. -/
  | parameter (name : String)
  deriving DecidableEq, Repr

/-- The kinds of values, by which values are refused. -/
inductive ValueKind where
  | text
  | integer
  | rows
  | connection
  | parameter
  deriving DecidableEq, Repr

namespace ValueKind

def name : ValueKind → String
  | text => "text"
  | integer => "integer"
  | rows => "rows"
  | connection => "connection"
  | parameter => "parameter reference"

def all : List ValueKind := [text, integer, rows, connection, parameter]

def ofName? (name : String) : Option ValueKind := all.find? (·.name == name)

/-- The kinds in words: commas between them, and "or" before the last. -/
def describe (kinds : List ValueKind) : String :=
  match kinds.map name with
  | [] => "nothing"
  | [only] => only
  | names => ", ".intercalate names.dropLast ++ " or " ++ names.getLastD ""

end ValueKind

namespace Value

def kind : Value → ValueKind
  | text _ => .text
  | integer _ => .integer
  | rows _ => .rows
  | connection _ => .connection
  | parameter _ => .parameter

/-- How a command refers to its parameter. -/
def placeholder (name : String) : String := "$\x7b" ++ name ++ "\x7d"

/-- The value as a part of a text. -/
def render : Value → String
  | text s => s
  | integer n => Text.ofInt n
  | rows _ => "<rows>"
  | connection c => "<connection " ++ c.url ++ ">"
  | parameter name => placeholder name

/-- The value with its kind, on one line. -/
def inspect : Value → String
  | text s => "Text(" ++ Text.quoted s ++ ")"
  | integer n => "Integer(" ++ Text.ofInt n ++ ")"
  | rows _ => "Rows(..)"
  | connection c => "Connection(" ++ c.url ++ ")"
  | parameter name => "ParameterRef(" ++ name ++ ")"

/-- Rows and connections are compared by what they are, all else by what it says. -/
def same : Value → Value → Bool
  | text a, text b => a == b
  | integer a, integer b => a == b
  | rows a, rows b => a == b
  | connection a, connection b => a.serial == b.serial
  | parameter a, parameter b => a == b
  | _, _ => false

end Value

/-- A value that is bound to a place in an SQL text. -/
inductive SqlArg where
  | text (s : String)
  | integer (n : Int)
  deriving DecidableEq, Repr

namespace SqlArg

def render : SqlArg → String
  | text s => Text.quoted s
  | integer n => Text.ofInt n

end SqlArg

end ArchiveScript
