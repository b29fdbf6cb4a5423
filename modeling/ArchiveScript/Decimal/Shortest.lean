import ArchiveScript.Decimal.Binary64

/-! # Shortest decimals

The decimal with the fewest digits that is nearer to a binary number than to any other. Of two such
decimals the nearer is taken, and of two equally near ones the larger.
-/

namespace ArchiveScript

/-- The number `digits * 10 ^ exponent`. -/
structure Decimal where
  digits : Nat
  exponent : Int
  deriving DecidableEq, Repr

namespace Decimal

/-- The fraction of two numbers times a power of ten. -/
def tenth (numerator denominator : Nat) (exponent : Int) : Nat × Nat :=
  if 0 ≤ exponent then (numerator * Nat.pow 10 exponent.toNat, denominator)
  else (numerator, denominator * Nat.pow 10 (-exponent).toNat)

def le (a b : Nat × Nat) : Bool := a.1 * b.2 ≤ b.1 * a.2

def lt (a b : Nat × Nat) : Bool := a.1 * b.2 < b.1 * a.2

/-- A binary number as a fraction. -/
def fraction (mantissa : Nat) (exponent : Int) : Nat × Nat :=
  if 0 ≤ exponent then (mantissa * Nat.pow 2 exponent.toNat, 1)
  else (mantissa, Nat.pow 2 (-exponent).toNat)

/-- The least `e` such that the fraction is less than `10 ^ e`. -/
def magnitude (value : Nat × Nat) : Int :=
  let guess : Int := (((value.1.log2 : Int) - value.2.log2) * 30103) / 100000
  let candidates := [guess - 1, guess, guess + 1, guess + 2]
  (candidates.find? fun e => lt value (tenth 1 1 e)).getD (guess + 3)

/-- Whether a fraction is read back as the number. The ends of the interval around an even
mantissa belong to it. -/
def readsBack (number : Binary64) (value : Nat × Nat) : Bool :=
  let m := number.mantissa
  let low := if m = Nat.pow 2 52 ∧ number.exponent > Binary64.minExponent
    then fraction (4 * m - 1) (number.exponent - 2)
    else fraction (2 * m - 1) (number.exponent - 1)
  let high := fraction (2 * m + 1) (number.exponent - 1)
  if m % 2 = 0 then le low value && le value high else lt low value && lt value high

/-- The better of the two decimals around the number whose last digit stands at `exponent`, if one
of them is read back. -/
def onGrid? (number : Binary64) (exponent : Int) : Option Decimal :=
  let value := fraction number.mantissa number.exponent
  let steps := (value.1 * (tenth 1 1 (-exponent)).1, value.2 * (tenth 1 1 (-exponent)).2)
  let below := steps.1 / steps.2
  let hit (digits : Nat) : Bool := digits != 0 && readsBack number (tenth digits 1 exponent)
  let nearerAbove := steps.2 ≤ 2 * (steps.1 % steps.2)
  if hit below && !(nearerAbove && hit (below + 1)) then some ⟨below, exponent⟩
  else if hit (below + 1) then
    -- Only a number just below a power of ten gets two digits here.
    some (if below + 1 = 10 then ⟨1, exponent + 1⟩ else ⟨below + 1, exponent⟩)
  else none

/-- The shortest decimal of a number other than zero. -/
def shortest (number : Binary64) : Decimal :=
  let top := magnitude (fraction number.mantissa number.exponent)
  let grids := (List.range 17).map fun (n : Nat) => top - 1 - n
  (grids.findSome? (onGrid? number)).getD ⟨0, 0⟩

/-- The decimal with all its digits and no exponent. -/
def positional (decimal : Decimal) : String :=
  let digits := Nat.toDigits 10 decimal.digits
  if 0 ≤ decimal.exponent then
    String.ofList (digits ++ List.replicate decimal.exponent.toNat '0')
  else
    let places := (-decimal.exponent).toNat
    let padded := List.replicate (places + 1 - digits.length) '0' ++ digits
    let whole := padded.length - places
    String.ofList (padded.take whole ++ '.' :: padded.drop whole)

end Decimal

end ArchiveScript
