import ArchiveScript.CommandLine.Sqlite
import ArchiveScript.Config.Config
import ArchiveScript.Machine.Program
import ArchiveScript.Metadata.Document
import ArchiveScript.Metadata.Report
import ArchiveScript.Run.Host
import ArchiveScript.Text.Blank

/-! # Workplaces

The host of a run that is started from the command line: a disk, on which scripts and archive
tools are run as programs and reports are files. There is no database engine; databases can be
opened, but not used.
-/

namespace ArchiveScript

structure Workplace where
  disk : Disk
  /-- Where the program was started. -/
  cwd : Location
  /-- The working directory, as it is seen from there. -/
  dir : Path
  config : Config
  /-- The number of temporary files made so far. -/
  temporary : Nat := 0

namespace Workplace

/-- What is said of a script that fails. -/
def scriptFailure (exit : Shell.Exit) (stderr : Octets) : String :=
  let headline := match exit with
    | .status n => "Exit value: " ++ toString n
    | .signal _ => "Terminated by a signal"
  Text.stripped (headline ++ "\n" ++ stderr.text)

/-- The line around the output of a tool. -/
def rule : String := String.ofList (List.replicate 72 '-')

/-- What is said of an archive tool that fails, with all that it has said itself. -/
def toolFailure (exit : Shell.Exit) (stdout stderr : Octets) : String :=
  let value := match exit with
    | .status n => toString n
    | .signal _ => "unknown (terminated by a signal)"
  let output := String.ofList (Text.trimEnd (stdout.text ++ stderr.text).toList)
  "Exit value " ++ value ++ ". Output:\n" ++ rule ++ "\n" ++ output ++ "\n" ++ rule

/-- Puts a file among the temporary ones and gives its name. -/
def addTemporary (start ending : String) (content : String) (executable : Bool) :
    Act Workplace String := do
  let place ← get
  let name := start ++ toString (100000 + place.temporary) ++ ending
  let disk := place.disk.put ["tmp", name] (.file (Octets.ofText content) executable)
  set { place with disk, temporary := place.temporary + 1 }
  return name

def removeTemporary (name : String) : Act Workplace Unit := modify fun place =>
  { place with disk := place.disk.erase ["tmp", name] }

/-- Runs a program in a directory. -/
def execute (dir : Path) (program : String) (args : List String) :
    Act Workplace (Except SystemError Outcome) := do
  let place ← get
  match place.disk.find place.cwd (Octets.ofText dir) with
  | .error error => return .error error
  | .ok (.free ..) => return .error .missing
  | .ok (.found location .directory) =>
    match place.disk.execute location (Octets.ofText program) (args.map Octets.ofText) with
    | .error error => return .error error
    | .ok outcome =>
      set { place with disk := outcome.disk }
      return .ok outcome
  | .ok (.found ..) => return .error .notDirectory

/-- Runs an archive tool. Arguments end at a character with the number zero, so none may have it. -/
def runTool (program : String) (args : List String) : Act Workplace Unit := do
  if (program :: args).any fun arg => arg.toList.any (·.toNat = 0) then
    throw ⟨"Cannot run " ++ program ++ ": nul byte found in provided data"⟩
  match ← execute (← get).dir program args with
  | .error error => throw ⟨"Cannot run " ++ program ++ ": " ++ error.message⟩
  | .ok outcome =>
    if outcome.exit ≠ .status 0 then
      throw ⟨toolFailure outcome.exit outcome.stdout outcome.stderr⟩

def runScript (interpreter script : String) (dir : Path) : Act Workplace String := do
  let content := "#!" ++ interpreter ++ "\n" ++ script
  let name ← addTemporary "dbspec-script-" "" content true
  let result ← execute dir ("/tmp/" ++ name) []
  removeTemporary name
  match result with
  | .error error => throw ⟨"Cannot run " ++ interpreter ++ ": " ++ error.message⟩
  | .ok outcome =>
    if outcome.exit = .status 0 then return outcome.stdout.text
    else throw ⟨scriptFailure outcome.exit outcome.stderr⟩

def connect (url : String) (properties : Dict String) : Act Workplace Link := do
  match SqliteTarget.ofUrl? url with
  | none => throw ⟨"No suitable driver found for " ++ url⟩
  | some .memory => return ⟨url, properties⟩
  | some (.file file) =>
    let place ← get
    let path := Path.join place.dir file
    match place.disk.openFile place.cwd (Octets.ofText path) with
    | .ok (_, disk) =>
      set { place with disk }
      return ⟨url, properties⟩
    | .error _ => throw ⟨"Cannot open " ++ url ++ ": unable to open database file: " ++ path⟩

def extract (connection : Connection) (path : Path) : Act Workplace Unit := do
  let property (name : String) := (connection.properties.get? name).getD ""
  runTool (← get).config.extractCommand
    ["-o", "-j=" ++ connection.url, "-u=" ++ property "user", "-p=" ++ property "password",
      "-s=" ++ path]

def adjust (path : Path) (metadata : Outline ArchiveKind) (connection : Connection) :
    Act Workplace Unit := do
  let name ← addTemporary "dbspec-metadata-" ".json" (adjustRequest connection.url metadata).render
    false
  let command := (← get).config.adjustCommand
  let result ← ExceptT.lift (runTool command [path, "/tmp/" ++ name]).run
  removeTemporary name
  ExceptT.mk (pure result)

def writeReport (path : Path) (commands : List (Outline CommandKind)) : Act Workplace Unit := do
  let place ← get
  let content := Octets.ofText (Report.render commands)
  match place.disk.write place.cwd (Octets.ofText path) content with
  | .ok disk => set { place with disk }
  | .error error => throw ⟨"Cannot write " ++ path ++ ": " ++ error.message⟩

/-- Deletes a report. It is no failure that there is none. -/
def removeReport (path : Path) : Act Workplace Bool := do
  let place ← get
  match place.disk.unlink place.cwd (Octets.ofText path) with
  | .ok disk =>
    set { place with disk }
    return true
  | .error .missing => return false
  | .error error => throw ⟨"Cannot delete " ++ path ++ ": " ++ error.message⟩

/-- What is said of statements for a database. -/
def noEngine : HostError := ⟨"there is no database engine"⟩

instance : Host Workplace TableCursor where
  connect := connect
  update _ _ _ := throw noEngine
  query _ _ _ := throw noEngine
  runScript := runScript
  extract := extract
  adjust := adjust
  writeReport := writeReport
  removeReport := removeReport

end Workplace

end ArchiveScript
