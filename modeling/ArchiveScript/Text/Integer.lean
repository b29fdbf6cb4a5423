/-! # Integers

The decimal form of integers of any size: one sign at most, then digits, between and after which
underscores may stand.
-/

namespace ArchiveScript.Text

/-- The value of digits after the digits that make up `value`; underscores are passed over. -/
def digitsFrom? (value : Nat) : List Char → Option Nat
  | [] => some value
  | c :: cs =>
    if c = '_' then digitsFrom? value cs
    else if c.isDigit then digitsFrom? (10 * value + (c.toNat - '0'.toNat)) cs
    else none

/-- The value of a digit and what follows it. -/
def magnitude? : List Char → Option Nat
  | [] => none
  | c :: cs => if c.isDigit then digitsFrom? 0 (c :: cs) else none

/-- The integer that the text is the decimal form of. -/
def integer? (s : String) : Option Int :=
  match s.toList with
  | '-' :: cs => (magnitude? cs).map fun n => -(n : Int)
  | '+' :: cs => (magnitude? cs).map fun n => (n : Int)
  | cs => (magnitude? cs).map fun n => (n : Int)

/-- The shortest decimal form. -/
def ofInt (n : Int) : String := toString n

end ArchiveScript.Text
