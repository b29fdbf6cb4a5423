/-! # Timing

How long a run spent on what it does outside, in microseconds, and the report on it.
-/

namespace ArchiveScript

/-- What time is spent on. -/
inductive TimingCategory where
  | shell
  | sql
  | siard
  deriving DecidableEq, Repr

/-- The time spent so far. Nothing is counted unless timing is enabled. -/
structure Timings where
  enabled : Bool
  shell : Nat := 0
  sql : Nat := 0
  siard : Nat := 0
  deriving DecidableEq, Repr

namespace Timings

def spent (timings : Timings) : TimingCategory → Nat
  | .shell => timings.shell
  | .sql => timings.sql
  | .siard => timings.siard

def add (timings : Timings) (category : TimingCategory) (micros : Nat) : Timings :=
  if timings.enabled then
    match category with
    | .shell => { timings with shell := timings.shell + micros }
    | .sql => { timings with sql := timings.sql + micros }
    | .siard => { timings with siard := timings.siard + micros }
  else timings

/-- A quotient with a number of decimal places; a half goes to the even neighbour. -/
def decimal (places numerator denominator : Nat) : String :=
  let scale := Nat.pow 10 places
  let scaled := numerator * scale
  let floor := scaled / denominator
  let rest := 2 * (scaled % denominator)
  let rounded :=
    if rest > denominator ∨ (rest = denominator ∧ floor % 2 = 1) then floor + 1 else floor
  let digits := toString (rounded % scale)
  let zeros := String.ofList (List.replicate (places - digits.length) '0')
  toString (rounded / scale) ++ "." ++ zeros ++ digits

def seconds (micros : Nat) : String := decimal 3 micros 1000000

/-- The share of a part in the total, in percent. -/
def share (part total : Nat) : String := if total = 0 then "0.0" else decimal 1 (part * 100) total

def reportLine (label : String) (part total : Nat) : String :=
  "  " ++ label ++ " " ++ seconds part ++ " s (" ++ share part total ++ "%)\n"

/-- The report at the end of a run that took `total`, if timing is enabled. -/
def report? (timings : Timings) (total : Nat) : Option String :=
  if timings.enabled then
    some ("\nTiming Report:\n  Total time:         " ++ seconds total ++ " s\n" ++
      reportLine "Shell command time:" timings.shell total ++
      reportLine "SQL command time:  " timings.sql total ++
      reportLine "SIARD extract time:" timings.siard total)
  else none

end Timings

end ArchiveScript
