import ArchiveScript.Path

/-! # Addresses of SQLite databases

A database lies in memory or in a file. An address may also be written the way JDBC writes it.
-/

namespace ArchiveScript

inductive SqliteTarget where
  | memory
  | file (path : Path)
  deriving DecidableEq, Repr

namespace SqliteTarget

/-- What follows `start` in a text that begins with it. -/
def after? (start text : String) : Option String :=
  if start.toList.isPrefixOf text.toList then
    some (String.ofList (text.toList.drop start.toList.length))
  else none

/-- The database of an address, if it is an address of SQLite. -/
def ofUrl? (url : String) : Option SqliteTarget := do
  let rest := (after? "jdbc:" url).getD url
  let location ← after? "sqlite:" rest
  return if location = "" ∨ location = ":memory:" then .memory else .file location

end SqliteTarget

end ArchiveScript
