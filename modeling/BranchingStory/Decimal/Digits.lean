/-!
# Digits

The values that digits stand for.  A reader of a number splits off its digits first,
so a list of them is not empty and holds nothing else.
-/

namespace BranchingStory

/-- The value of a hexadecimal digit, in either case. -/
def hexDigit? (c : Char) : Option Nat :=
  if c.isDigit then some (c.toNat - '0'.toNat)
  else if 'a' ≤ c ∧ c ≤ 'f' then some (c.toNat - 'a'.toNat + 10)
  else if 'A' ≤ c ∧ c ≤ 'F' then some (c.toNat - 'A'.toNat + 10)
  else none

/-- The number that digits of a base stand for.  A digit that the base does not have
stands for nothing. -/
def natOfDigits? (base : Nat) (digits : List Char) : Option Nat :=
  digits.foldlM
    (fun n c => (hexDigit? c).bind fun d => if d < base then some (n * base + d) else none) 0

/-- The number that decimal digits stand for. -/
def natOfDecimal (digits : List Char) : Nat :=
  digits.foldl (fun n c => n * 10 + (c.toNat - '0'.toNat)) 0

example : hexDigit? 'F' = some 15 := by decide
example : natOfDigits? 2 ['1', '0', '1'] = some 5 := by decide
example : natOfDigits? 2 ['1', '2'] = none := by decide
example : natOfDecimal ['0', '4', '2'] = 42 := by decide

end BranchingStory
