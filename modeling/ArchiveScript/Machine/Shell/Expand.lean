import ArchiveScript.Dict
import ArchiveScript.Machine.Shell.Pattern
import ArchiveScript.Machine.Shell.Word

/-! # Expansion of words

What a word stands for: parameters and commands are put in, what came from them unquoted is split
at blanks, and patterns become paths.
-/

namespace ArchiveScript.Shell

/-- A running shell. -/
structure State where
  process : Process
  /-- The name that it was called by. -/
  name : Octets
  args : List Octets := []
  bindings : Dict Octets := .empty
  /-- The status of the last command. -/
  status : Nat := 0
  pid : Nat := 2
  /-- A command that fails ends the script. -/
  exitOnFailure : Bool := false
  /-- A parameter without a value ends the script. -/
  exitOnUnset : Bool := false
  /-- The outcome of the present command is looked at, so that its failure ends nothing. -/
  guarded : Bool := false

abbrev Sh := StateM State

/-- How the script goes on after a command. -/
inductive Flow where
  | next
  | leave
  | killed (signal : Nat)
  /-- Out of some loops. -/
  | stop (loops : Nat)
  /-- On with a loop, out of some in it. -/
  | resume (loops : Nat)
  deriving DecidableEq, Repr

/-- A part of a command, before which the script may end. -/
abbrev Part := ExceptT Flow Sh

/-- Does a job in the process of the shell. -/
def onProcess (job : Job α) : Sh α := fun state =>
  let (a, process) := job state.process
  (a, { state with process })

def setStatus (status : Nat) : Sh Unit := modify fun state => { state with status }

def assign (name value : Octets) : Sh Unit := modify fun state =>
  { state with bindings := state.bindings.insert name value }

/-- Complains with the name of the script. -/
def complain (line : Nat) (reason : Octets) : Sh Unit := do
  let name := (← get).name
  onProcess (Job.complain (name ++ ": " ++ toString line ++ ": " ++ reason ++ "\n"))

/-- Complains and ends the script. -/
def abort (line : Nat) (reason : Octets) : Sh Flow := do
  complain line reason
  setStatus 2
  return .leave

/-- A part of what a word stands for. -/
inductive Atom where
  | mark (mark : Mark)
  /-- A blank at which the word is split. -/
  | gap (c : Char)
  /-- Nothing, which is there because it is quoted. -/
  | presence
  deriving DecidableEq, Repr

def isGap (c : Char) : Bool := c = ' ' || c = '\t' || c = '\n'

/-- What a value stands for in a word. -/
def valueAtoms (quoted : Bool) (value : Octets) : List Atom :=
  if quoted then .presence :: value.toList.map fun c => .mark ⟨c, true⟩
  else value.toList.map fun c => if isGap c then .gap c else .mark ⟨c, false⟩

/-- What the arguments stand for in a word: each is a word of its own. -/
def argumentAtoms (quoted : Bool) : List Octets → List Atom
  | [] => []
  | [arg] => valueAtoms quoted arg
  | arg :: args => valueAtoms quoted arg ++ .gap ' ' :: argumentAtoms quoted args

namespace State

/-- The value of a parameter that has one value. -/
def value? (state : State) (name : Octets) : Option Octets :=
  match name with
  | "#" => some (toString state.args.length)
  | "?" => some (toString state.status)
  | "$" => some (toString state.pid)
  | "!" => some ""
  | "-" => some ((if state.exitOnFailure then "e" else "") ++ if state.exitOnUnset then "u" else "")
  | "0" => some state.name
  | "@" | "*" => if state.args.isEmpty then none else some (" ".intercalate state.args)
  | name =>
    match name.toList with
    | c :: _ =>
      if c.isDigit then
        match name.toNat? with
        | some (n + 1) => state.args[n]?
        | _ => none
      else state.bindings.get? name
    | [] => none

end State

/-- The characters of a text without what a pattern matches at its start. -/
def cutStart (longest : Bool) (pattern : List Glob) (cs : List Char) : List Char :=
  let counts := List.range (cs.length + 1)
  let counts := if longest then counts.reverse else counts
  match counts.find? fun n => matchesWhole pattern (cs.take n) with
  | some n => cs.drop n
  | none => cs

/-- The characters of a text without what a pattern matches at its end. -/
def cutEnd (longest : Bool) (pattern : List Glob) (cs : List Char) : List Char :=
  let counts := List.range (cs.length + 1)
  let counts := if longest then counts else counts.reverse
  match counts.find? fun n => matchesWhole pattern (cs.drop n) with
  | some n => cs.take n
  | none => cs

/-- The characters that atoms stand for where nothing is split. -/
def marksOf (atoms : List Atom) : List Mark := atoms.flatMap fun
  | .mark mark => [mark]
  | .gap c => [⟨c, false⟩]
  | .presence => []

/-- Runs a script for its output. -/
abbrev Substitution := Octets → Part Octets

/-- The output of a command without the ends of lines at its end. -/
def trimNewlines (output : Octets) : Octets :=
  String.ofList (output.toList.reverse.dropWhile (· = '\n')).reverse

mutual

/-- What a piece stands for. The fuel bounds how deep words lie in each other. -/
def pieceAtoms (substitute : Substitution) (line : Nat) : Nat → Piece → Part (List Atom)
  | _, .text text quoted =>
    return if quoted then .presence :: text.toList.map fun c => .mark ⟨c, true⟩
      else text.toList.map fun c => .mark ⟨c, false⟩
  | _, .command script quoted => do
    return valueAtoms quoted (trimNewlines (← substitute script))
  | fuel, .parameter name modifier quoted => do
    let state ← get
    let value? := state.value? name
    let present (orEmpty : Bool) : Bool := value?.any fun value => !orEmpty || value ≠ ""
    let value : List Atom :=
      if name = "@" || (name = "*" && !quoted) then argumentAtoms quoted state.args
      else valueAtoms quoted (value?.getD "")
    let unset : Part Unit := do
      if state.exitOnUnset && value?.isNone && name ≠ "@" && name ≠ "*" then
        throw (← abort line (name ++ ": parameter not set"))
    match modifier with
    | .none =>
      unset
      return value
    | .length =>
      unset
      return valueAtoms quoted (toString (value?.getD "").length)
    | .otherwise orEmpty word =>
      if present orEmpty then return value else nestedAtoms substitute line fuel quoted word
    | .instead orEmpty word =>
      if present orEmpty then nestedAtoms substitute line fuel quoted word else return []
    | .assign orEmpty word =>
      if present orEmpty then return value
      else
        let atoms ← nestedAtoms substitute line fuel quoted word
        assign name (textOf (marksOf atoms))
        return atoms
    | .demand orEmpty word =>
      if present orEmpty then return value
      else
        let atoms ← nestedAtoms substitute line fuel quoted word
        let reason := textOf (marksOf atoms)
        throw (← abort line (name ++ ": " ++ if reason = "" then "parameter not set" else reason))
    | .cutStart longest pattern =>
      unset
      let globs := patternOf (marksOf (← nestedAtoms substitute line fuel false pattern))
      let cs := cutStart longest globs (value?.getD "").toList
      return valueAtoms quoted (String.ofList cs)
    | .cutEnd longest pattern =>
      unset
      let globs := patternOf (marksOf (← nestedAtoms substitute line fuel false pattern))
      let cs := cutEnd longest globs (value?.getD "").toList
      return valueAtoms quoted (String.ofList cs)

/-- What a word inside of a parameter stands for. -/
def nestedAtoms (substitute : Substitution) (line : Nat) :
    Nat → Bool → Octets → Part (List Atom)
  | 0, _, _ => return []
  | fuel + 1, quoted, text =>
    match readWord? (fun _ => false) (text.length + 1) text.toList with
    | none => return []
    | some (word, _) => do
      let atoms ← word.mapM (pieceAtoms substitute line fuel)
      let all := atoms.flatten
      return if quoted then .presence :: (marksOf all).map fun mark => .mark ⟨mark.char, true⟩
        else all

end

/-- How deep words can lie in each other. -/
def nestingLimit : Nat := 20

def wordAtoms (substitute : Substitution) (line : Nat) (word : Word) : Part (List Atom) := do
  return (← word.mapM (pieceAtoms substitute line nestingLimit)).flatten

/-- Splits atoms into fields. `current` is the field that was begun. -/
def fieldsFrom (current : Option (List Mark)) : List Atom → List (List Mark)
  | [] => current.toList
  | .mark mark :: rest => fieldsFrom (some (current.getD [] ++ [mark])) rest
  | .presence :: rest => fieldsFrom (some (current.getD [])) rest
  | .gap _ :: rest => current.toList ++ fieldsFrom none rest

/-- The fields that words stand for. -/
def fields (substitute : Substitution) (line : Nat) (words : List Word) : Part (List Octets) := do
  let all ← words.mapM fun word => do
    let atoms ← wordAtoms substitute line word
    let process := (← get).process
    return (fieldsFrom none atoms).flatMap (pathsOf process)
  return all.flatten

/-- The text that a word stands for where nothing is split. -/
def unsplit (substitute : Substitution) (line : Nat) (word : Word) : Part Octets := do
  return textOf (marksOf (← wordAtoms substitute line word))

end ArchiveScript.Shell
