import ArchiveScript.Text.Quoted

/-! # Outlines

The metadata that a script declares are trees of named entries: the description of an archive and
the commands that go with it.
-/

namespace ArchiveScript

/-- The entries of the description of an archive. -/
inductive ArchiveKind where
  | metadata
  | info
  | schema
  | type
  | table
  | column
  | field
  | key
  | check
  | view
  deriving DecidableEq, Repr

/-- The entries of a command. -/
inductive CommandKind where
  | command
  | parameter
  | sql
  deriving DecidableEq, Repr

/-- The names that kinds of entries are written with. -/
class EntryKind (κ : Type) where
  title : κ → String
  /-- The name in documents for other programs. -/
  tag : κ → String
  all : List κ

namespace ArchiveKind

def title : ArchiveKind → String
  | metadata => "METADATA"
  | info => "INFO"
  | schema => "SCHEMA"
  | type => "TYPE"
  | table => "TABLE"
  | column => "COLUMN"
  | field => "FIELD"
  | key => "KEY"
  | check => "CHECK"
  | view => "VIEW"

def tag : ArchiveKind → String
  | metadata => "metadata"
  | info => "info"
  | schema => "schema"
  | type => "type"
  | table => "table"
  | column => "column"
  | field => "field"
  | key => "key"
  | check => "check"
  | view => "view"

instance : EntryKind ArchiveKind where
  title := title
  tag := tag
  all := [metadata, info, schema, type, table, column, field, key, check, view]

end ArchiveKind

namespace CommandKind

def title : CommandKind → String
  | command => "COMMAND"
  | parameter => "PARAMETER"
  | sql => "SQL"

def tag : CommandKind → String
  | command => "command"
  | parameter => "parameter"
  | sql => "sql"

instance : EntryKind CommandKind where
  title := title
  tag := tag
  all := [command, parameter, sql]

end CommandKind

def EntryKind.ofTitle? {κ : Type} [EntryKind κ] (title : String) : Option κ :=
  EntryKind.all.find? (EntryKind.title · == title)

/-- An entry with the entries below it. -/
inductive Outline (κ : Type) where
  | mk (kind : κ) (name data : String) (children : List (Outline κ))
  deriving Repr

namespace Outline

variable {κ : Type}

def kind : Outline κ → κ
  | mk kind _ _ _ => kind

def name : Outline κ → String
  | mk _ name _ _ => name

def data : Outline κ → String
  | mk _ _ data _ => data

def children : Outline κ → List (Outline κ)
  | mk _ _ _ children => children

/-- An entry with none below it. -/
def leaf (kind : κ) (name data : String) : Outline κ := mk kind name data []

/-- Adds an entry after the others below. -/
def push : Outline κ → Outline κ → Outline κ
  | mk kind name data children, child => mk kind name data (children ++ [child])

/-- The entries directly below that are of the given kind. -/
def childrenOf [DecidableEq κ] (outline : Outline κ) (kind : κ) : List (Outline κ) :=
  outline.children.filter (·.kind = kind)

/-- The first entry directly below that is of the given kind and name. -/
def child? [DecidableEq κ] (outline : Outline κ) (kind : κ) (name : String) : Option (Outline κ) :=
  (outline.childrenOf kind).find? (·.name == name)

mutual

/-- The outline as an s-expression. An entry without a name shows none. -/
def sexp [EntryKind κ] : Outline κ → String
  | mk kind name data children =>
    "(" ++ EntryKind.title kind ++ (if name.isEmpty then "" else " " ++ name) ++ " " ++
      Text.quoted data ++ sexps children ++ ")"

def sexps [EntryKind κ] : List (Outline κ) → String
  | [] => ""
  | child :: rest => " " ++ child.sexp ++ sexps rest

end

end Outline

end ArchiveScript
