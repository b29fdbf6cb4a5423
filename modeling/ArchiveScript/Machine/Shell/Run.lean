import ArchiveScript.Machine.Shell.Builtin
import ArchiveScript.Machine.Shell.Command

/-! # Running commands and programs

Commands are run by what runs the commands inside of them, so that one bound holds for all: how
deep commands, scripts and programs may start each other.
-/

namespace ArchiveScript.Shell

/-- What runs commands. -/
abbrev Runner := Command → Sh Flow

/-- How a program ended. -/
inductive Exit where
  | status (n : Nat)
  | signal (n : Nat)
  deriving DecidableEq, Repr

namespace Exit

/-- The status that the shell gives to a program that ended. -/
def toStatus : Exit → Nat
  | status n => n
  | signal n => 128 + n

end Exit

/-- How a token is named where it cannot stand. -/
def tokenName : Option Token → Octets
  | none => "end of file"
  | some .newline => "newline"
  | some (.operator sign) => "\"" ++ sign ++ "\""
  | some (.number _) => "redirection"
  | some .broken => "word"
  | some (.word word) =>
    match plainText? word with
    | some text => if reserved.contains text then "\"" ++ text ++ "\"" else "word"
    | none => "word"

/-- What a script says of a token that cannot stand where it does. -/
def syntaxError (unexpected : Unexpected) : Octets :=
  let token := unexpected.found.map (·.token)
  if token = some .broken then "Syntax error: Unterminated quoted string"
  else
    let expected := match unexpected.expected with
      | some sign => " (expecting \"" ++ sign ++ "\")"
      | none => ""
    "Syntax error: " ++ tokenName token ++ " unexpected" ++ expected

/-- The line that the shell has reached when it finds a mistake: what is without an end goes on to
the last line, and after the end of a line it is at the next one. -/
def syntaxErrorLine (last : Nat) (unexpected : Unexpected) : Nat :=
  match unexpected.found with
  | none | some ⟨.broken, _⟩ => last
  | some ⟨.newline, line⟩ => line + 1
  | some ⟨_, line⟩ => line

/-- Runs the lines of a script one after the other. -/
def runLines (self : Runner) (last : Nat) : Nat → List Lexeme → Sh Flow
  | 0, _ => return .next
  | fuel + 1, lexemes => do
    match nextLine lexemes with
    | .ok (none, _) => return .next
    | .ok (some command, rest) =>
      match ← self command with
      | .leave => return .leave
      | .killed signal => return .killed signal
      | _ => runLines self last fuel rest
    | .error unexpected => abort (syntaxErrorLine last unexpected) (syntaxError unexpected)

def runScript (self : Runner) (script : Octets) : Sh Flow :=
  let lexemes := scriptLexemes script
  let last := ((script.toList.filter (· = '\n')).length) + 1
  runLines self last (lexemes.length + 1) lexemes

/-- Does something in a process of its own, which leaves what it has written. -/
def apart (act : Sh α) : Sh α := fun state =>
  let (a, inner) := act state
  (a, { state with process := state.process.after inner.process })

/-- Does something with its output kept, and gives the output. -/
def capturing (act : Sh α) : Sh (α × Octets) := do
  let process := (← get).process
  let index := process.captures.length
  modify fun state => { state with process :=
    { process with captures := process.captures ++ [""], out := .capture index } }
  let a ← act
  let inner := (← get).process
  modify fun state => { state with process :=
    { inner with captures := inner.captures.take index, out := process.out } }
  return (a, (inner.captures[index]?).getD "")

/-- Runs a script for its output. The status is that of the script. -/
def substitute (self : Runner) (script : Octets) : Part Octets := fun state =>
  let run : Sh ((Flow × Nat) × Octets) := capturing do
    let flow ← apart do
      let flow ← runScript self script
      return (flow, (← get).status)
    return flow
  let (((flow, status), output), state) := run state
  match flow with
  | .killed signal => (.error (.killed signal), state)
  | _ => (.ok output, { state with status })

/-- Where a redirection leads. -/
def redirectOne (self : Runner) (line : Nat) (redirect : Redirect) : Part (Option Octets) := do
  match redirect with
  | .read fd path =>
    let path ← unsplit (substitute self) line path
    let process := (← get).process
    match process.disk.read process.cwd path with
    | .ok content =>
      if fd = 0 then modify fun state => { state with process := { process with input := content } }
      return none
    | .error .missing => return some ("cannot open " ++ path ++ ": No such file")
    | .error error => return some ("cannot open " ++ path ++ ": " ++ error.reason)
  | .write fd append path =>
    let path ← unsplit (substitute self) line path
    let process := (← get).process
    match process.disk.openFile process.cwd path with
    | .ok (location, disk) =>
      let disk := if append then disk else disk.alter location fun _ => ""
      let process := { process with disk }
      let process := if fd = 1 then { process with out := .file location }
        else if fd = 2 then { process with err := .file location }
        else process
      modify fun state => { state with process }
      return none
    | .error .missing => return some ("cannot create " ++ path ++ ": Directory nonexistent")
    | .error error => return some ("cannot create " ++ path ++ ": " ++ error.reason)
  | .copy fd other =>
    let other ← unsplit (substitute self) line other
    let process := (← get).process
    let target := if other = "1" then some process.out
      else if other = "2" then some process.err
      else if other = "-" then some .null
      else none
    match target with
    | some sink =>
      let process := if fd = 1 then { process with out := sink }
        else if fd = 2 then { process with err := sink }
        else process
      modify fun state => { state with process }
      return none
    | none => return if other = "0" then none else some (other ++ ": Bad file descriptor")

def redirectAll (self : Runner) (line : Nat) : List Redirect → Part (Option Octets)
  | [] => return none
  | redirect :: rest => do
    match ← redirectOne self line redirect with
    | some reason => return some reason
    | none => redirectAll self line rest

/-- Puts input and output back to where they were. -/
def restore (redirects : List Redirect) (before : Process) : Sh Unit := modify fun state =>
  let readsAnew := redirects.any fun
    | .read 0 _ => true
    | _ => false
  { state with process := { state.process with
      out := before.out
      err := before.err
      input := if readsAnew then before.input else state.process.input } }

/-- Does something with redirections. -/
def withRedirects (self : Runner) (line : Nat) (redirects : List Redirect) (special : Bool)
    (act : Sh Flow) : Sh Flow := do
  let before := (← get).process
  let flow ← match ← (redirectAll self line redirects).run with
    | .error flow => pure flow
    | .ok none => act
    | .ok (some reason) =>
      restore redirects before
      complain line reason
      setStatus 2
      pure (if special then .leave else .next)
  restore redirects before
  return flow

/-- How a script is to be run: its first line can name a program and an argument for it. -/
def interpreter? (content : Octets) : Except SystemError (Octets × List Octets) :=
  let start := content.toList.take 256
  match start with
  | '#' :: '!' :: rest =>
    let line := rest.takeWhile (· ≠ '\n')
    let isBlank (c : Char) := c = ' ' || c = '\t'
    let trimmed := ((line.dropWhile isBlank).reverse.dropWhile isBlank).reverse
    let name := trimmed.takeWhile fun c => !isBlank c && c.toNat ≠ 0
    let cutOff := line.length = rest.length && start.length = 256 && name.length = trimmed.length
    if name.isEmpty || cutOff then .error .notProgram
    else
      let argument := (trimmed.drop name.length).dropWhile isBlank
      .ok (String.ofList name, if argument.isEmpty then [] else [String.ofList argument])
  | _ => .error .notProgram

/-- A program that was found, and the arguments that it is started with. -/
structure Start where
  program : String
  name : Octets
  args : List Octets

/-- Finds the program that a file is, or that its first line names. -/
def startOf (disk : Disk) (cwd : Location) :
    Nat → Octets → List Octets → Except SystemError Start
  | 0, _, _ => .error .tooManyLinks
  | depth + 1, path, args => do
    match ← disk.find cwd path with
    | .free .. => throw .missing
    | .found _ (.program program) => return ⟨program, path, args⟩
    | .found _ (.file content true) =>
      let (interpreter, argument) ← interpreter? content
      startOf disk cwd depth interpreter (argument ++ path :: args)
    | .found .. => throw .permissionDenied

/-- How many first lines can lead from a script to a program. -/
def interpreterLimit : Nat := 6

/-- The options of the shell at the beginning of its arguments. -/
def readShellOptions : List Octets → Sh (Bool × List Octets)
  | [] => return (false, [])
  | arg :: args =>
    match arg.toList with
    | '-' :: c :: letters => do
      setOptions true (c :: letters)
      if (c :: letters).contains 'c' then return (true, args)
      else if arg = "--" then return (false, args)
      else readShellOptions args
    | _ => return (false, arg :: args)

/-- Runs a shell as a program. -/
def runShell (self : Runner) (program : Octets) (args : List Octets) : Sh Flow := do
  modify fun state => { process := state.process, name := program, pid := state.pid + 1,
                        bindings := state.bindings }
  let (direct, args) ← readShellOptions args
  match direct, args with
  | true, script :: args =>
    modify fun state => { state with name := args.headD program, args := args.tail }
    runScript self script
  | true, [] => abort 0 "-c requires an argument"
  | false, [] =>
    let script := (← get).process.input
    modify fun state => { state with process := { state.process with input := "" } }
    runScript self script
  | false, path :: args =>
    let process := (← get).process
    match process.disk.read process.cwd path with
    | .ok script =>
      modify fun state => { state with name := path, args }
      runScript self script
    | .error _ => abort 0 ("cannot open " ++ path ++ ": No such file")

/-- How a shell ended. -/
def exitOf (flow : Flow) : Sh Exit := do
  match flow with
  | .killed signal => return .signal signal
  | _ => return .status (← get).status

/-- A command that is given by its words. -/
def commandOf (words : List Octets) : Command :=
  .simple 0 [] (words.map fun word => [.text word true]) []

/-- Runs a program in a process of its own. -/
def launch (self : Runner) (start : Start) : Sh Exit := apart do
  match start.program with
  | "env" =>
    discard (exportAll (start.args.takeWhile (·.contains '=')))
    exitOf (← self (commandOf (start.args.dropWhile (·.contains '='))))
  | "sh" | "dash" | "bash" => exitOf (← runShell self start.name start.args)
  | program =>
    match Utility.find? program with
    | some utility => return .status (← onProcess (utility start.args))
    | none => return .status 127

/-- What the shell says of a program that a signal ended. -/
def signalNote : Nat → Octets
  | 1 => "Hangup\n"
  | 3 => "Quit\n"
  | 6 => "Aborted\n"
  | 9 => "Killed\n"
  | 11 => "Segmentation fault\n"
  | 14 => "Alarm clock\n"
  | 15 => "Terminated\n"
  | _ => ""

/-- Runs a program, and goes on with its status. -/
def await (self : Runner) (start : Start) : Sh Flow := do
  let exit ← launch self start
  match exit with
  | .signal n => onProcess (Job.complain (signalNote n))
  | .status _ => pure ()
  ended exit.toStatus

/-- Runs a command that is no builtin: a file if it is given by its path, else a program. -/
def external (self : Runner) (line : Nat) (name : Octets) (args : List Octets) : Sh Flow := do
  let process := (← get).process
  let path := if name.contains '/' then name else "/bin/" ++ name
  match startOf process.disk process.cwd interpreterLimit path args with
  | .ok start => await self (if start.name = path then { start with name } else start)
  | .error .notProgram =>
    -- A file that names no program is a script for the shell.
    await self ⟨"sh", path, path :: args⟩
  | .error .permissionDenied =>
    complain line (name ++ ": " ++ SystemError.permissionDenied.reason)
    ended 126
  | .error _ =>
    complain line (name ++ ": not found")
    ended 127

/-- Runs a command in the shell's own process or in another one. -/
def dispatch (self : Runner) (line : Nat) (name : Octets) (args : List Octets) : Sh Flow := do
  match name with
  | "eval" => runScript self (" ".intercalate args)
  | "exec" =>
    match args with
    | [] => ended 0
    | name :: args =>
      match ← external self line name args with
      | .next => return .leave
      | flow => return flow
  | "." =>
    let process := (← get).process
    match process.disk.read process.cwd (args.headD "") with
    | .ok script => runScript self script
    | .error _ => abort line (".: cannot open " ++ args.headD "" ++ ": No such file")
  | _ =>
    match builtin? line name args with
    | some builtin => builtin
    | none => external self line name args

/-- Runs a command of words. Assignments before it last as long as it does. -/
def simple (self : Runner) (line : Nat) (assignments : List (Octets × Word)) (words : List Word)
    (redirects : List Redirect) : Sh Flow := do
  let before := (← get).bindings
  let prepare : Part (List Octets) := do
    setStatus (← get).status
    let fields ← fields (substitute self) line words
    if fields.isEmpty && words.isEmpty then setStatus 0
    for (name, value) in assignments do
      let value ← unsplit (substitute self) line value
      assign name value
    return fields
  match ← prepare.run with
  | .error flow => return flow
  | .ok [] => withRedirects self line redirects false (return .next)
  | .ok (name :: args) =>
    let special := specials.contains name
    let keeps := name = "exec" && args.isEmpty
    let flow ← if keeps then
        match ← (redirectAll self line redirects).run with
        | .error flow => pure flow
        | .ok none => ended 0
        | .ok (some reason) => abort line reason
      else withRedirects self line redirects special (dispatch self line name args)
    if !special && !assignments.isEmpty then
      modify fun state => { state with bindings := before }
    return flow

/-- Ends the script after a failure that nobody looks at, if it is to end then. -/
def checked (act : Sh Flow) : Sh Flow := do
  let flow ← act
  let state ← get
  if flow = .next && state.status ≠ 0 && state.exitOnFailure && !state.guarded then return .leave
  else return flow

/-- Does something whose failure is looked at. -/
def guarding (act : Sh Flow) : Sh Flow := do
  let before := (← get).guarded
  modify fun state => { state with guarded := true }
  let flow ← act
  modify fun state => { state with guarded := before }
  return flow

/-- Runs a command in a process of its own. -/
def inSubshell (act : Sh Flow) : Sh Flow := do
  let (flow, status) ← apart do
    let flow ← act
    return (flow, (← get).status)
  match flow with
  | .killed signal => return .killed signal
  | _ => ended status

/-- Runs the body of a loop for each value. -/
def runEach (self : Runner) (name : Octets) (body : Command) : List Octets → Sh Flow
  | [] => return .next
  | value :: values => do
    assign name value
    match ← self body with
    | .next | .resume 0 => runEach self name body values
    | .stop 0 => return .next
    | .stop (n + 1) => return .stop n
    | .resume (n + 1) => return .resume n
    | flow => return flow

/-- Runs a command, given what runs those inside of it. -/
def step (self : Runner) : Command → Sh Flow
  | .nothing => ended 0
  | .simple line assignments words redirects =>
    checked (simple self line assignments words redirects)
  | .redirected line command redirects =>
    checked (withRedirects self line redirects false (self command))
  | .sequence first second => do
    match ← self first with
    | .next => self second
    | flow => return flow
  | .both first second => do
    match ← guarding (self first) with
    | .next => if (← get).status = 0 then self second else return .next
    | flow => return flow
  | .either first second => do
    match ← guarding (self first) with
    | .next => if (← get).status = 0 then return .next else self second
    | flow => return flow
  | .negated command => do
    match ← guarding (self command) with
    | .next => ended (if (← get).status = 0 then 1 else 0)
    | flow => return flow
  | .pipe first second => checked do
    let (flow, output) ← capturing (inSubshell (self first))
    match flow with
    | .killed signal => return .killed signal
    | _ =>
      let input := (← get).process.input
      modify fun state => { state with process := { state.process with input := output } }
      let flow ← inSubshell (self second)
      modify fun state => { state with process := { state.process with input } }
      return flow
  | .subshell command => checked (inSubshell (self command))
  | .choose condition thenPart elsePart => do
    match ← guarding (self condition) with
    | .next => if (← get).status = 0 then self thenPart else self elsePart
    | flow => return flow
  | .loop whileFails condition body => do
    match ← guarding (self condition) with
    | .next =>
      if ((← get).status = 0) = !whileFails then
        match ← self body with
        | .next | .resume 0 => self (.loop whileFails condition body)
        | .stop 0 => return .next
        | .stop (n + 1) => return .stop n
        | .resume (n + 1) => return .resume n
        | flow => return flow
      else ended 0
    | flow => return flow
  | .each name words body => do
    let values : Part (List Octets) := match words with
      | some words => fields (substitute self) 0 words
      | none => do return (← get).args
    match ← values.run with
    | .error flow => return flow
    | .ok values =>
      setStatus 0
      runEach self name body values

/-- Runs commands that start each other up to some depth; one that goes deeper is killed. -/
def run : Nat → Runner
  | 0, _ => return .killed 9
  | fuel + 1, command => step (run fuel) command

/-- How deep commands may start each other. A loop goes deeper with each round. -/
def depthLimit : Nat := 10000

end ArchiveScript.Shell
