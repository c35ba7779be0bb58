/-!
# Numerals

The numbers of the records are natural numbers.  A reader of a data format meets
others too, in fields it skips.  It keeps those as they are written and gives them
no value.
-/

namespace BranchingStory

/-- A number in a data format. -/
inductive Numeral where
  /-- A natural number. -/
  | natural (n : Nat)
  /-- Any other number, as it is written. -/
  | other (text : String)
deriving DecidableEq, Repr

/-- The natural number, if it is one up to a limit. -/
def Numeral.upTo? (limit : Nat) : Numeral → Option Nat
  | natural n => if n ≤ limit then some n else none
  | other _ => none

/-- The largest number of a record: numbers are words of 32 bits. -/
def maxRecordNumber : Nat := UInt32.size - 1

/-- The largest count: counts are words of 64 bits. -/
def maxCount : Nat := UInt64.size - 1

end BranchingStory
