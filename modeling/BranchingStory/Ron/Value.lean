import BranchingStory.Decimal.Numeral

/-!
# Object notation values

Records are authored in RON, an object notation in which a record looks like
`Chapter(number: 1, title: \x7b"english": "Dawn"\x7d)`.  A value is kept as it is
written.  What it means is up to the record that is read from it: the same text
`()` may be a record without fields or a tuple without elements.
-/

namespace BranchingStory

/-- A value in RON. -/
inductive Ron where
  | bool (b : Bool)
  | number (n : Numeral)
  | char (c : Char)
  | string (s : String)
  /-- `None` or `Some(v)`. -/
  | option (v : Option Ron)
  /-- An identifier alone. -/
  | word (name : String)
  /-- Values in parentheses, with or without a name before them. -/
  | tuple (name : Option String) (items : List Ron)
  /-- Named fields in parentheses, with or without a name before them. -/
  | struct (name : Option String) (fields : List (String × Ron))
  /-- Values in square brackets. -/
  | list (items : List Ron)
  /-- Keys with values in braces. -/
  | map (entries : List (Ron × Ron))
deriving Repr, Inhabited

end BranchingStory
