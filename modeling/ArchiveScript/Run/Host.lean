import ArchiveScript.Metadata.Ledger
import ArchiveScript.Path
import ArchiveScript.Rows.Store

/-! # The host

All that a run does outside itself goes through a host: databases, scripts, archive tools and
reports. A host is any state with these operations, each of which may fail.
-/

namespace ArchiveScript

/-- What a database says of a connection that it has opened. -/
structure Link where
  url : String
  properties : Dict String

/-- The operations of a host with states `η`, whose queries are answered by cursors `κ`. -/
class Host (η : Type) (κ : outParam Type) where
  connect (url : String) (properties : Dict String) : Act η Link
  update (connection : Connection) (sql : String) (args : List SqlArg) : Act η Unit
  query (connection : Connection) (sql : String) (args : List SqlArg) : Act η κ
  /-- Runs a script in a directory and gives its output. -/
  runScript (interpreter script : String) (dir : Path) : Act η String
  /-- Extracts a database into an archive. -/
  extract (connection : Connection) (path : Path) : Act η Unit
  /-- Puts the declared metadata into an archive. -/
  adjust (path : Path) (metadata : Outline ArchiveKind) (connection : Connection) : Act η Unit
  /-- Writes the report on the commands of an archive. -/
  writeReport (path : Path) (commands : List (Outline CommandKind)) : Act η Unit
  /-- Deletes a report, if there is one. -/
  removeReport (path : Path) : Act η Bool

/-- What can be seen of a run from outside, in order. A call is seen before it is carried out. -/
inductive Event where
  /-- A line of log output. -/
  | log (text : String)
  | connect (url : String) (properties : Dict String)
  /-- A connection that was opened. -/
  | opened (connection : Connection)
  | update (connection : Connection) (sql : String) (args : List SqlArg)
  | query (connection : Connection) (sql : String) (args : List SqlArg)
  | script (interpreter script : String) (dir : Path)
  | extract (connection : Connection) (path : Path)
  | adjust (path : Path) (metadata : Outline ArchiveKind) (connection : Connection)
  | generate (path : Path) (commands : List (Outline CommandKind))
  | remove (path : Path)
  /-- Whether there was a report to delete. -/
  | removed (existed : Bool)

end ArchiveScript
