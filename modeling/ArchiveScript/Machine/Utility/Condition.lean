import ArchiveScript.Machine.Process
import ArchiveScript.Text.Integer

/-! # Conditions

The utility that tests conditions on files and texts.
-/

namespace ArchiveScript.Utility

open Job

/-- A condition on a file. -/
def fileCondition? (process : Process) (sign : Octets) (path : Octets) : Option Bool :=
  let item? := match process.disk.find process.cwd path with
    | .ok (.found _ item) => some item
    | _ => none
  match sign with
  | "-e" | "-r" | "-w" => some item?.isSome
  | "-f" => some (item?.any fun
    | .file .. | .program _ => true
    | _ => false)
  | "-d" => some (item? == some .directory)
  | "-x" => some (item?.any fun
    | .file _ executable => executable
    | .directory | .program _ => true
    | .null => false)
  | "-s" => some (item?.any fun
    | .file content _ => content ≠ ""
    | .directory | .program _ => true
    | .null => false)
  | _ => none

def textCondition? (sign text : Octets) : Option Bool :=
  match sign with
  | "-n" => some (text ≠ "")
  | "-z" => some (text = "")
  | _ => none

/-- A number for a comparison. -/
def numberOf (text : Octets) : Except Octets Int :=
  match Text.integer? text with
  | some n => .ok n
  | none => .error ("Illegal number: " ++ text)

/-- A comparison; numbers have to be numbers. -/
def comparison? (a sign b : Octets) : Option (Except Octets Bool) :=
  let numbers (compare : Int → Int → Bool) : Except Octets Bool := do
    return compare (← numberOf a) (← numberOf b)
  match sign with
  | "=" => some (.ok (a = b))
  | "!=" => some (.ok (a ≠ b))
  | "-eq" => some (numbers fun m n => m = n)
  | "-ne" => some (numbers fun m n => m ≠ n)
  | "-lt" => some (numbers fun m n => m < n)
  | "-le" => some (numbers fun m n => m ≤ n)
  | "-gt" => some (numbers fun m n => m > n)
  | "-ge" => some (numbers fun m n => m ≥ n)
  | _ => none

/-- The first condition among the arguments, and the arguments after it. -/
def firstCondition (process : Process) : List Octets → Except Octets (Bool × List Octets)
  | [] => .error "argument expected"
  | "!" :: a :: rest => do
    let (holds, rest) ← firstCondition process (a :: rest)
    return (!holds, rest)
  | a :: sign :: b :: rest =>
    match comparison? a sign b with
    | some outcome => outcome.map (·, rest)
    | none =>
      match (textCondition? a sign).or (fileCondition? process a sign) with
      | some holds => .ok (holds, b :: rest)
      | none => .ok (a ≠ "", sign :: b :: rest)
  | [sign, a] =>
    match (textCondition? sign a).or (fileCondition? process sign a) with
    | some holds => .ok (holds, [])
    | none => .error (sign ++ ": unexpected operator")
  | [a] => .ok (a ≠ "", [])

/-- Conditions that are joined: all of them hold up to an "or", or those after it do. -/
def joined (process : Process) : Nat → List Octets → Except Octets Bool
  | 0, _ => .ok false
  | fuel + 1, args => do
    let (holds, rest) ← firstCondition process args
    match rest with
    | [] => return holds
    | "-a" :: rest =>
      let others ← joined process fuel rest
      return holds && others
    | "-o" :: rest =>
      let others ← joined process fuel rest
      return holds || others
    | arg :: _ => .error (arg ++ ": unexpected operator")

/-- Tests a condition. Without arguments there is none that holds. -/
def testAs (name : String) (args : List Octets) : Job Nat := do
  if args.isEmpty then return 1
  match joined (← get) (args.length + 1) args with
  | .ok holds => return if holds then 0 else 1
  | .error reason =>
    complain (name ++ ": " ++ reason ++ "\n")
    return 2

def test (args : List Octets) : Job Nat := testAs "test" args

/-- A condition between brackets. -/
def bracket (args : List Octets) : Job Nat := do
  if args.getLast? = some "]" then testAs "[" args.dropLast
  else
    complain "[: missing ]\n"
    return 2

end ArchiveScript.Utility
