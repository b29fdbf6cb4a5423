import ArchiveScript.Dict
import ArchiveScript.Metadata.Outline

/-! # The ledger

What a run has declared so far, by the names of the connections that it was declared for.
-/

namespace ArchiveScript

/-- What is declared for one connection. -/
structure Declared where
  archive : Outline ArchiveKind
  commands : List (Outline CommandKind)

namespace Declared

/-- Nothing is declared below the root. -/
def nothing : Declared := ⟨.leaf .metadata "" "", []⟩

end Declared

structure Ledger where
  connections : Dict Declared

namespace Ledger

def empty : Ledger := ⟨.empty⟩

def get? (ledger : Ledger) (connection : String) : Option Declared :=
  ledger.connections.get? connection

/-- Changes what is declared for a connection, which gets a root if it has none. -/
def update (ledger : Ledger) (connection : String) (f : Declared → Declared) : Ledger :=
  ⟨ledger.connections.insert connection (f ((ledger.get? connection).getD .nothing))⟩

/-- Gives a connection a root. -/
def touch (ledger : Ledger) (connection : String) : Ledger := ledger.update connection id

def declare (ledger : Ledger) (connection : String) (entry : Outline ArchiveKind) : Ledger :=
  ledger.update connection fun declared => { declared with archive := declared.archive.push entry }

def declareCommand (ledger : Ledger) (connection : String) (command : Outline CommandKind) :
    Ledger :=
  ledger.update connection fun declared =>
    { declared with commands := declared.commands ++ [command] }

def archive? (ledger : Ledger) (connection : String) : Option (Outline ArchiveKind) :=
  (ledger.get? connection).map (·.archive)

def commands (ledger : Ledger) (connection : String) : List (Outline CommandKind) :=
  ((ledger.get? connection).map (·.commands)).getD []

theorem get?_update (ledger : Ledger) (connection name : String) (f : Declared → Declared) :
    (ledger.update connection f).get? name =
      if name = connection then some (f ((ledger.get? connection).getD .nothing))
      else ledger.get? name := by
  simp [update, get?]

end Ledger

end ArchiveScript
