import BranchingStory.Decimal.Numeral

/-!
# JSON values

An object keeps its fields in the order they are written, with repetitions, since
a reader of records has to see both.  A number that is a natural number is kept as
one.  Any other number is kept as it is written, since no record here holds one.
-/

namespace BranchingStory

/-- A value in JSON. -/
inductive Json where
  | null
  | bool (b : Bool)
  | number (n : Numeral)
  | string (s : String)
  /-- A string, or an object with a key, that escapes half of a surrogate pair.  It
  is JSON and holds no text, so it can be skipped and not read. -/
  | illFormed
  | array (items : List Json)
  | object (fields : List (String × Json))
deriving Repr, Inhabited

namespace Json

/-- A natural number. -/
def nat (n : Nat) : Json := .number (.natural n)

/-- A list, element by element. -/
def ofList {α : Type} (encode : α → Json) (l : List α) : Json := .array (l.map encode)

/-- A text, or null for none. -/
def ofOption {α : Type} (encode : α → Json) (o : Option α) : Json := (o.map encode).getD .null

end Json

end BranchingStory
