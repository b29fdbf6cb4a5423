import ArchiveScript.Machine.Shell.Expand
import ArchiveScript.Machine.Utility.Catalog
import ArchiveScript.Text.Integer

/-! # Builtin commands

The commands that the shell carries out itself, because they change it or are used often.
-/

namespace ArchiveScript.Shell

/-- Ends with a status and goes on. -/
def ended (status : Nat) : Sh Flow := do
  setStatus status
  return .next

/-- A number without a sign. Blanks may stand after it. -/
def natural? (text : Octets) : Option Nat :=
  let isBlank (c : Char) := c = ' ' || ('\t' ≤ c && c ≤ '\r')
  let cs := (text.toList.reverse.dropWhile isBlank).reverse
  if !cs.isEmpty && cs.all Char.isDigit then
    some (cs.foldl (fun n c => 10 * n + (c.toNat - '0'.toNat)) 0)
  else none

/-- Ends the script with a status, or with that of the last command. -/
def exit (line : Nat) (args : List Octets) : Sh Flow := do
  match args with
  | [] => return .leave
  | arg :: _ =>
    match natural? arg with
    | some n =>
      setStatus (n % 256)
      return .leave
    | none => abort line ("exit: Illegal number: " ++ arg)

def cd (line : Nat) (args : List Octets) : Sh Flow := do
  match args with
  | [] => ended 0
  | path :: _ =>
    let process := (← get).process
    match process.disk.find process.cwd path with
    | .ok (.found location .directory) =>
      modify fun state => { state with process := { state.process with cwd := location } }
      ended 0
    | _ =>
      complain line ("cd: can't cd to " ++ path)
      ended 2

/-- Switches the options of the shell. -/
def setOptions (on : Bool) (letters : List Char) : Sh Unit := modify fun state =>
  letters.foldl (fun state c =>
    if c = 'e' then { state with exitOnFailure := on }
    else if c = 'u' then { state with exitOnUnset := on }
    else state) state

/-- Sets options and arguments. -/
def setCommand : List Octets → Sh Flow
  | [] => ended 0
  | "--" :: args => do
    modify fun state => { state with args }
    ended 0
  | arg :: args => do
    match arg.toList with
    | '-' :: letters =>
      setOptions true letters
      setCommand args
    | '+' :: letters =>
      setOptions false letters
      setCommand args
    | _ =>
      modify fun state => { state with args := arg :: args }
      ended 0

def shift (line : Nat) (args : List Octets) : Sh Flow := do
  let count := (args.head?.bind natural?).getD 1
  if count > (← get).args.length then abort line "shift: can't shift that many"
  else
    modify fun state => { state with args := state.args.drop count }
    ended 0

/-- Sets the variables that are given values. -/
def exportAll (args : List Octets) : Sh Flow := do
  for arg in args do
    let name := arg.toList.takeWhile (· ≠ '=')
    if name.length < arg.length then
      assign (String.ofList name) (String.ofList (arg.toList.drop (name.length + 1)))
  ended 0

def unset (args : List Octets) : Sh Flow := do
  modify fun state => { state with bindings := args.foldl (·.erase ·) state.bindings }
  ended 0

/-- Divides a line among variables: each takes a word, and the last one all that is left. -/
def divide : List Octets → List Char → List (Octets × Octets)
  | [], _ => []
  | [name], cs => [(name, String.ofList ((cs.dropWhile isGap).reverse.dropWhile isGap).reverse)]
  | name :: names, cs =>
    let cs := cs.dropWhile isGap
    (name, String.ofList (cs.takeWhile (!isGap ·))) :: divide names (cs.dropWhile (!isGap ·))

/-- Reads a line into variables; fails if the input ends before the line does. -/
def read (args : List Octets) : Sh Flow := do
  let names := args.filter fun arg => !arg.startsWith "-"
  let input := (← get).process.input.toList
  let line := input.takeWhile (· ≠ '\n')
  let rest := String.ofList (input.drop (line.length + 1))
  modify fun state => { state with process := { state.process with input := rest } }
  for (name, value) in divide names line do assign name value
  ended (if line.length < input.length then 0 else 1)

/-- The numbers of signals. -/
def signal? (text : Octets) : Option Nat :=
  match natural? text with
  | some n => some n
  | none =>
    let text := String.ofList (if text.startsWith "SIG" then text.toList.drop 3 else text.toList)
    let known := [("HUP", 1), ("INT", 2), ("QUIT", 3), ("ABRT", 6), ("KILL", 9), ("USR1", 10),
      ("SEGV", 11), ("USR2", 12), ("PIPE", 13), ("ALRM", 14), ("TERM", 15), ("CHLD", 17),
      ("CONT", 18)]
    known.lookup text

/-- Whether a process that gets the signal ends. -/
def isDeadly (signal : Nat) : Bool := [0, 17, 18, 23, 28].contains signal = false

/-- Sends a signal to the shell itself; there is no other process to send one to. -/
def kill (line : Nat) (args : List Octets) : Sh Flow := do
  let (signal, targets) := match args with
    | "-s" :: name :: targets => (signal? name, targets)
    | arg :: targets =>
      match arg.toList with
      | '-' :: name => (signal? (String.ofList name), targets)
      | _ => (some 15, args)
    | [] => (some 15, [])
  match signal with
  | none =>
    complain line "kill: Illegal option"
    ended 2
  | some signal =>
    if targets.contains (toString (← get).pid) then
      if isDeadly signal then return .killed signal else ended 0
    else
      complain line "kill: No such process"
      ended 1

/-- Does a job and puts the name of the script before what it complains about. -/
def signed (line : Nat) (job : Job Nat) : Sh Nat := do
  let before := (← get).process
  let index := before.captures.length
  let (status, process) := job
    { before with captures := before.captures ++ [""], err := .capture index }
  modify fun state => { state with process :=
    { process with captures := process.captures.take index, err := before.err } }
  let complaint := (process.captures[index]?).getD ""
  if complaint ≠ "" then
    complain line (String.ofList (complaint.toList.take (complaint.length - 1)))
  return status

/-- The number of loops that a command leaves. -/
def loopCount (args : List Octets) : Nat := ((args.head?.bind natural?).getD 1) - 1

/-- The commands that end the script if one of their redirections fails. -/
def specials : List String :=
  [":", ".", "break", "continue", "eval", "exec", "exit", "export", "return", "set", "shift",
    "unset", "trap", "times", "readonly"]

/-- The builtin command of a name. -/
def builtin? (line : Nat) (name : Octets) (args : List Octets) : Option (Sh Flow) :=
  let job (job : Job Nat) : Sh Flow := do ended (← signed line job)
  match name with
  | ":" | "true" | "wait" | "umask" | "trap" => some (ended 0)
  | "false" => some (ended 1)
  | "exit" | "return" => some (exit line args)
  | "cd" => some (cd line args)
  | "set" => some (setCommand args)
  | "shift" => some (shift line args)
  | "export" | "readonly" => some (exportAll args)
  | "unset" => some (unset args)
  | "read" => some (read args)
  | "kill" => some (kill line args)
  | "break" => some (return .stop (loopCount args))
  | "continue" => some (return .resume (loopCount args))
  | "echo" => some (job (Utility.echo args))
  | "printf" | "test" | "[" | "pwd" => (Utility.find? name).map fun run => job (run args)
  | _ => none

end ArchiveScript.Shell
