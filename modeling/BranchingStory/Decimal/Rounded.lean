/-!
# A fraction to a fixed number of places

`roundDiv` divides natural numbers and rounds to the nearest, a tie to the even
neighbour.  `Float.oneDecimal` writes a float with one place.  It rounds the exact
value that the bits stand for, and not a decimal approximation of it.
-/

namespace BranchingStory.Decimal

/-- The quotient rounded to the nearest natural number, a tie to the even one. -/
def roundDiv (num den : Nat) : Nat :=
  let q := num / den
  let twice := 2 * (num % den)
  if den < twice then q + 1
  else if twice < den then q
  else q + q % 2

/-- The significand and the binary exponent, biased by 1074, of a finite float that is
not negative. -/
def decode (bits : UInt64) : Nat × Nat :=
  let fraction := bits.toNat % Nat.pow 2 52
  let exponent := bits.toNat / Nat.pow 2 52 % Nat.pow 2 11
  if exponent = 0 then (fraction, 0) else (fraction + Nat.pow 2 52, exponent - 1)

/-- The tenths of a finite float that is not negative, rounded. -/
def tenths (bits : UInt64) : Nat :=
  let (significand, exponent) := decode bits
  roundDiv (significand * 10 * Nat.pow 2 exponent) (Nat.pow 2 1074)

/-- A number of tenths as a decimal. -/
def ofTenths (n : Nat) : String := (n / 10).repr ++ "." ++ (n % 10).repr

/-- A finite float that is not negative, with one place. -/
def oneDecimal (x : Float) : String := ofTenths (tenths x.toBits)

example : roundDiv 25 10 = 2 := by decide
example : roundDiv 35 10 = 4 := by decide
/-- The bits of 6.25. -/
example : tenths 0x4019000000000000 = 62 := by decide +kernel

end BranchingStory.Decimal
