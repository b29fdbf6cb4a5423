import ArchiveScript.Machine.Shell.Run

/-! # Programs

Starting a program on a disk, and what it leaves behind.
-/

namespace ArchiveScript

/-- What a program left behind. -/
structure Outcome where
  exit : Shell.Exit
  stdout : Octets
  stderr : Octets
  disk : Disk

namespace Disk

/-- The directories that every machine has. -/
def standardDirectories : List Location :=
  [["bin"], ["dev"], ["etc"], ["home"], ["lib"], ["opt"], ["proc"], ["root"], ["run"], ["sbin"],
    ["srv"], ["sys"], ["tmp"], ["usr"], ["usr", "bin"], ["usr", "lib"], ["usr", "local"],
    ["usr", "local", "bin"], ["usr", "sbin"], ["usr", "share"], ["var"], ["var", "tmp"]]

/-- A machine on which nobody has worked yet. -/
def standard : Disk :=
  let programs := (Utility.names ++ Utility.launchers).flatMap fun name =>
    [(["bin", name], Item.program name), (["usr", "bin", name], Item.program name)]
  let directories := standardDirectories.map fun location => (location, Item.directory)
  ⟨directories ++ [(["dev", "null"], .null)] ++ programs⟩

/-- The files below a directory, by their paths from there. -/
def filesBelow (disk : Disk) (root : Location) : List (Octets × Octets) :=
  disk.items.filterMap fun (location, item) =>
    match item with
    | .file content _ =>
      if root.isPrefixOf location && location.length > root.length then
        some ("/".intercalate (location.drop root.length), content)
      else none
    | _ => none

/-- The files below a directory that are new or have another content than before. -/
def written (disk before : Disk) (root : Location) : List (Octets × Octets) :=
  (disk.filesBelow root).filter fun entry => !(before.filesBelow root).contains entry

/-- The files below a directory that are gone. -/
def removed (disk before : Disk) (root : Location) : List Octets :=
  let left := (disk.filesBelow root).map (·.1)
  ((before.filesBelow root).map (·.1)).filter fun path => !left.contains path

/-- The path at which a program is looked for. -/
def programPath (name : Octets) : Octets :=
  if name = "" || name.contains '/' then name else "/bin/" ++ name

/-- Runs a program in a directory, with nothing to read. -/
def execute (disk : Disk) (cwd : Location) (name : Octets) (args : List Octets) :
    Except SystemError Outcome := do
  let start ← Shell.startOf disk cwd Shell.interpreterLimit (programPath name) args
  let process : Process :=
    { disk, captures := ["", ""], cwd, input := "", out := .capture 0, err := .capture 1 }
  let (exit, state) := Shell.launch (Shell.run Shell.depthLimit) start { process, name }
  let captures := state.process.captures
  return ⟨exit, (captures[0]?).getD "", (captures[1]?).getD "", state.process.disk⟩

end Disk

end ArchiveScript
