/-! # Binary floating-point numbers

The finite positive numbers of the binary format with 53 bits of precision, and the one of them
that is nearest to a fraction.
-/

namespace ArchiveScript

/-- The number `mantissa * 2 ^ exponent`. -/
structure Binary64 where
  mantissa : Nat
  exponent : Int
  deriving DecidableEq, Repr

namespace Binary64

def minExponent : Int := -1074

def maxExponent : Int := 971

/-- The quotient rounded to the nearest integer; a half goes to the even neighbour. -/
def roundDiv (numerator denominator : Nat) : Nat :=
  let floor := numerator / denominator
  let rest := 2 * (numerator % denominator)
  if rest > denominator ∨ (rest = denominator ∧ floor % 2 = 1) then floor + 1 else floor

/-- The fraction divided by a power of two. -/
def scaled (numerator denominator : Nat) (exponent : Int) : Nat × Nat :=
  if 0 ≤ exponent then (numerator, denominator * Nat.pow 2 exponent.toNat)
  else (numerator * Nat.pow 2 (-exponent).toNat, denominator)

/-- The largest `e` such that `2 ^ e` is at most the fraction. -/
def magnitude (numerator denominator : Nat) : Int :=
  let guess : Int := (numerator.log2 : Int) - denominator.log2
  let (n, d) := scaled numerator denominator guess
  if n < d then guess - 1 else guess

/-- The number nearest to a positive fraction, unless that is too large. -/
def nearest? (numerator denominator : Nat) : Option Binary64 :=
  let exponent := max (magnitude numerator denominator - 52) minExponent
  let (n, d) := scaled numerator denominator exponent
  let mantissa := roundDiv n d
  let number : Binary64 :=
    if mantissa = Nat.pow 2 53 then ⟨Nat.pow 2 52, exponent + 1⟩ else ⟨mantissa, exponent⟩
  if number.exponent > maxExponent then none else some number

end Binary64

end ArchiveScript
