import ArchiveScript.Machine.Disk

/-! # Processes

What a running program sees of the machine: the disk, the directory that it works in, what it can
read and where its outputs go.
-/

namespace ArchiveScript

/-- Where an output goes. -/
inductive Sink where
  /-- It is kept under a number. -/
  | capture (index : Nat)
  /-- It goes to the end of a file. -/
  | file (location : Location)
  | null
  deriving DecidableEq, Repr

structure Process where
  disk : Disk
  /-- The outputs that are kept. -/
  captures : List Octets
  cwd : Location
  /-- What has not been read of the input. -/
  input : Octets
  out : Sink
  err : Sink

/-- What a program does: it changes the process and ends with a status. -/
abbrev Job := StateM Process

namespace Process

def write (process : Process) (sink : Sink) (content : Octets) : Process :=
  match sink with
  | .capture index => { process with captures := process.captures.modify index (· ++ content) }
  | .file location => { process with disk := process.disk.alter location (· ++ content) }
  | .null => process

/-- Goes on after another process, of which only what both have in common is left. -/
def after (process other : Process) : Process :=
  { process with disk := other.disk, captures := other.captures, input := other.input }

end Process

namespace Job

def say (content : Octets) : Job Unit := modify fun process => process.write process.out content

def complain (content : Octets) : Job Unit := modify fun process =>
  process.write process.err content

/-- Complains with the name of the program and ends with status one. -/
def refuse (program : String) (reason : Octets) : Job Nat := do
  complain (program ++ ": " ++ reason ++ "\n")
  return 1

/-- Changes the disk; fails with what is said of the error. -/
def onDisk (change : Disk → Location → Except SystemError Disk) : Job (Option SystemError) := do
  let process ← get
  match change process.disk process.cwd with
  | .ok disk =>
    set { process with disk }
    return none
  | .error error => return some error

/-- Reads a file, or the input under the name of a dash. -/
def readFile (path : Octets) : Job (Except SystemError Octets) := do
  let process ← get
  if path = "-" then
    set { process with input := "" }
    return .ok process.input
  return process.disk.read process.cwd path

/-- Does something with each argument; one failure makes the whole fail. -/
def each (args : List Octets) (job : Octets → Job Nat) : Job Nat :=
  args.foldlM (fun status arg => do return max status (← job arg)) 0

end Job

end ArchiveScript
