import ArchiveScript.CommandLine.Options
import ArchiveScript.CommandLine.Workplace
import ArchiveScript.Run.LogSink
import ArchiveScript.Run.Session

/-! # Invocations

What a call of the program does, from its arguments to its outputs and its exit code.
-/

namespace ArchiveScript

/-- How a call of the program ended. -/
structure Finish where
  status : Status
  stdout : String
  stderr : String
  disk : Disk

namespace Invocation

/-- The configuration file that is looked for in the working directory. -/
def configFile : Path := "dbspec.toml"

/-- Reads a file as a text. -/
def readText (disk : Disk) (cwd : Location) (path : Path) : Except ReadError String :=
  match disk.read cwd (Octets.ofText path) with
  | .error error => .error (.failed error)
  | .ok content =>
    match content.text? with
    | some text => .ok text
    | none => .error .notText

/-- Reads a configuration file, or says why it cannot be read. -/
def loadConfig (disk : Disk) (cwd : Location) (path : Path) : Except String Config :=
  match readText disk cwd path with
  | .error error => .error ("cannot read " ++ path ++ ": " ++ error.message)
  | .ok text =>
    match Config.parse text with
    | .ok config => .ok config
    | .error error => .error error.message

/-- The configuration of a call: a file that is named has to be there. -/
def configOf (disk : Disk) (cwd : Location) (dir : Path) (named : Option Path) :
    Except (Path × String) Config :=
  let load (path : Path) : Except (Path × String) Config :=
    match loadConfig disk cwd path with
    | .ok config => .ok config
    | .error reason => .error (path, reason)
  match named with
  | some file => load (Path.join dir file)
  | none =>
    let path := Path.join dir configFile
    if disk.holds cwd (Octets.ofText path) then load path else .ok {}

/-- The log output of a run. -/
def logOf (sink : LogSink) (trace : Array Event) : String :=
  (trace.foldl (fun sink event =>
    match event with
    | .log line => sink.println line
    | _ => sink) sink).output

/-- Runs a script file that is there. -/
def runFile (options : Options) (config : Config) (disk : Disk) (cwd : Location)
    (dir path : Path) : Finish :=
  let settings : Settings := { parameters := config.parameters, dir }
  let world : World Workplace TableCursor := { host := { disk, cwd, dir, config } }
  let ending := Session.runFile settings { enabled := options.timing } path
    (readText disk cwd path) world
  let quiet := options.verbosity = .quiet
  { status := ending.status
    stdout := logOf (if quiet then .silent else .buffer "") ending.world.trace
    stderr := if quiet then "" else ending.diagnostics
    disk := ending.world.host.disk }

/-- Does what the options say. -/
def runOptions (options : Options) (disk : Disk) (cwd : Location) : Finish :=
  let refuse (status : Status) (reason : String) : Finish :=
    ⟨status, "", if options.verbosity = .quiet then "" else reason ++ "\n", disk⟩
  let dir := options.directory.getD "."
  if !disk.isDirectory cwd (Octets.ofText dir) then
    refuse .directoryDoesNotExist ("Not a directory: " ++ dir)
  else
    match options.file with
    | none => refuse .fileNotSpecified "No dbspec file specified"
    | some file =>
      let path := Path.join dir file
      if !disk.holds cwd (Octets.ofText path) then
        refuse .fileNotFound ("File not found: " ++ path)
      else
        match configOf disk cwd dir options.config with
        | .error (configPath, reason) =>
          refuse .configFileUnreadable
            ("Unable to read configuration file: " ++ configPath ++ "\n" ++ reason)
        | .ok config => runFile options config disk cwd dir path

/-- A call of the program by its name. Mistakes in the arguments are told even if the program is
to be quiet. -/
def run (program : String) (args : List String) (disk : Disk) (cwd : Location) : Finish :=
  match Options.parse args with
  | .error error =>
    ⟨error.status, "", "Error: " ++ error.message ++ "\n\n" ++ Options.usage program ++ "\n", disk⟩
  | .ok options =>
    if options.help then ⟨.ok, Options.usage program ++ "\n", "", disk⟩
    else runOptions options disk cwd

end Invocation

end ArchiveScript
