import BranchingStory.Ron.Lexer
import BranchingStory.Ron.Shape
import BranchingStory.Ron.Value

/-!
# Reading the object notation

A value is read with the shape of what is expected, which says where options stand.
`true`, `false`, `None`, `inf` and `NaN` are values of their own, and any other
identifier is a word unless parentheses follow it.  Parentheses hold named fields if an
identifier and a colon come first, and values otherwise.  A comma may follow the last
element of a list.

An option is `None`, or `Some` with a value in parentheses.  `Some` is an option
wherever it stands.  Where the shape asks for an option, nothing has to end these two
words.  A text that switches on `implicit_some` may leave out the parentheses, and the
word `Some` too where the shape asks for an option.

Nesting has a limit of 128 units.  A bracket takes a unit and so does each of its
elements, while the value of an option takes one for both.  `Ron.read` counts down the
units that are left, and so it ends.

A text may begin with attributes that switch on extensions of the notation.
`implicit_some` is the one that makes a difference here.
-/

namespace BranchingStory.Ron

/-! ## Lists -/

/-- Elements up to a closing bracket, at most `count` of them.  Each but the last has
a comma after it. -/
def readElements {α : Type} (item : Reader α) (close : Char) : Nat → Reader (List α)
  | 0, _ => none
  | count + 1, s => do
      match ← skipSpace s with
      | [] => none
      | c :: s =>
          if c = close then return ([], s)
          else
            let (a, s) ← item (c :: s)
            match ← skipSpace s with
            | [] => none
            | c :: s =>
                if c = ',' then
                  let (rest, s) ← readElements item close count s
                  return (a :: rest, s)
                else if c = close then return ([a], s)
                else none

/-- The elements of a list after its opening bracket. -/
def readList {α : Type} (item : Reader α) (close : Char) : Reader (List α) := fun s =>
  readElements item close (s.length + 1) s

/-- A colon and a value, with white space around the colon. -/
def readColon (value : Reader Ron) : Reader Ron := fun s => do
  let ':' :: s ← skipSpace s | none
  value (← skipSpace s)

/-- A field: an identifier, a colon and a value of the shape of that field. -/
def readField (value : Shape → Reader Ron) (shape : Shape) : Reader (String × Ron) := fun s => do
  let (name, s) ← readName s
  let (v, s) ← readColon (value (shape.field name)) s
  return ((name, v), s)

/-- A key, a colon and a value. -/
def readEntry (value : Reader Ron) : Reader (Ron × Ron) := fun s => do
  let (key, s) ← value s
  let (v, s) ← readColon value s
  return ((key, v), s)

/-! ## Values -/

/-- An identifier and a colon come first. -/
def startsField (s : List Char) : Bool :=
  match readName s with
  | none => false
  | some (_, s) => (skipSpace s).any (·.head? == some ':')

/-- What parentheses hold, after the opening one. -/
def readParens (name : Option String) (item : Shape → Reader Ron) (shape : Shape) : Reader Ron :=
  fun s => do
    let s ← skipSpace s
    if startsField s then
      let (fields, s) ← readList (readField item shape) ')' s
      return (.struct name fields, s)
    else
      let (items, s) ← readList (item .plain) ')' s
      return (.tuple name items, s)

/-- The closing parenthesis of `Some`, with at most one comma before it. -/
def closeSome (s : List Char) : Option (List Char) := do
  match ← skipSpace s with
  | ')' :: s => return s
  | ',' :: s =>
      let ')' :: s ← skipSpace s | none
      return s
  | _ => none

/-- A value that stands for an option, if options are implicit. -/
def readImplicit (implicitSome : Bool) (value : Reader Ron) : Reader Ron := fun s =>
  if implicitSome then (value s).map fun (v, s) => (.option (some v), s) else none

/-- The value of an option, after the word `Some`. -/
def readSome (implicitSome : Bool) (value : Reader Ron) : Reader Ron := fun s => do
  match ← skipSpace s with
  | '(' :: s =>
      let (v, s) ← value (← skipSpace s)
      return (.option (some v), ← closeSome s)
  | s => readImplicit implicitSome value s

/-- An option. -/
def readOption (implicitSome : Bool) (value : Reader Ron) : Reader Ron := fun s =>
  match dropWord? "None" s, dropWord? "Some" s with
  | some s, _ => some (.option none, s)
  | none, some s => readSome implicitSome value s
  | none, none => readImplicit implicitSome value s

/-- The readers for what a value holds: for the value of an option, and for the elements
of a bracket. -/
structure Inner where
  /-- Reads the value of an option. -/
  some : Shape → Reader Ron
  /-- Reads an element. -/
  item : Shape → Reader Ron

/-- The identifiers that are values of their own. -/
def keywords : List (String × Ron) :=
  [("true", .bool true), ("false", .bool false), ("None", .option none),
    ("inf", .number (.other "inf")), ("NaN", .number (.other "NaN"))]

/-- A value that starts with an identifier, after it. -/
def readNamed (inner : Option Inner) (shape : Shape) (name : String) : Reader Ron := fun s => do
  match ← skipSpace s with
  | '(' :: s => inner.bind fun inner => readParens name inner.item shape s
  | s => return (.word name, s)

/-- A value that starts with no identifier. -/
def readOther (inner : Option Inner) (shape : Shape) : Reader Ron
  | '(' :: ')' :: s => some (.tuple none [], s)
  | '(' :: s => inner.bind fun inner => readParens none inner.item shape s
  | '[' :: s => do
      let (items, s) ← readList ((← inner).item shape.item) ']' s
      return (.list items, s)
  | '\x7b' :: s => do
      let (entries, s) ← readList (readEntry ((← inner).item .plain)) '\x7d' s
      return (.map entries, s)
  | '"' :: s => (readString ('"' :: s)).map fun (t, s) => (.string t, s)
  | 'r' :: s => (readString ('r' :: s)).map fun (t, s) => (.string t, s)
  | '\'' :: s => (readChar ('\'' :: s)).map fun (c, s) => (.char c, s)
  | '.' :: s => (readDecimal ('.' :: s)).map fun (n, s) => (.number n, s)
  | c :: s =>
      if c.isDigit || c == '+' || c == '-' then
        (readNumber (c :: s)).map fun (n, s) => (.number n, s)
      else none
  | [] => none

/-- A value of a shape without options on the outside. -/
def readPlain (implicitSome : Bool) (inner : Option Inner) (shape : Shape) : Reader Ron := fun s =>
  match readKeyword keywords s, dropWholeWord? "Some" s, readName s with
  | some result, _, _ => some result
  | none, some rest, _ =>
      inner.bind fun inner => readSome implicitSome (inner.some .plain) rest
  | none, none, some (name, rest) => readNamed inner shape name rest
  | none, none, none => readOther inner shape s

/-- A value of a shape, given the readers for what it holds.  Without them it must hold
nothing. -/
def readValue (implicitSome : Bool) (inner : Option Inner) : Shape → Reader Ron
  | .option of => fun s =>
      readOption implicitSome ((inner.map fun inner => inner.some of).getD fun _ => none) s
  | shape => readPlain implicitSome inner shape

/-- A value of a shape with some units of nesting left. -/
def read (implicitSome : Bool) : Nat → Shape → Reader Ron
  | 0 => readValue implicitSome none
  | 1 => readValue implicitSome (some ⟨read implicitSome 0, fun _ _ => none⟩)
  | units + 2 =>
      readValue implicitSome (some ⟨read implicitSome (units + 1), read implicitSome units⟩)

/-- The units of nesting that a text has. -/
def nestingLimit : Nat := 128

/-! ## Texts -/

/-- An extension of the notation. -/
inductive Extension where
  | unwrapNewtypes
  | implicitSome
  | unwrapVariantNewtypes
deriving DecidableEq, Repr

/-- The extension of that name. -/
def Extension.ofName? : String → Option Extension
  | "unwrap_newtypes" => some unwrapNewtypes
  | "implicit_some" => some implicitSome
  | "unwrap_variant_newtypes" => some unwrapVariantNewtypes
  | _ => none

/-- The text after a word that it starts with, and after white space. -/
def expect (word : String) (s : List Char) : Option (List Char) := (dropWord? word s).bind skipSpace

/-- The extensions of an attribute after its parenthesis, at most `count` of them. -/
def readExtensions : Nat → Reader (List Extension)
  | 0, _ => none
  | count + 1, s => do
      let (name, s) ← readName s
      let extension ← Extension.ofName? name
      let s ← skipSpace s
      match s with
      | ',' :: s =>
          let s ← skipSpace s
          if s.head?.any isNameChar then
            let (rest, s) ← readExtensions count s
            return (extension :: rest, s)
          else return ([extension], s)
      | _ => return ([extension], s)

/-- The attributes at the front of a text, at most `count` of them. -/
def readAttributes : Nat → Reader (List Extension)
  | 0, _ => none
  | count + 1, s =>
      match s with
      | '#' :: _ => do
          let s ← expect "#" s
          let s ← expect "!" s
          let s ← expect "[" s
          let s ← expect "enable" s
          let s ← expect "(" s
          let (extensions, s) ← readExtensions s.length s
          let s ← expect ")" s
          let s ← expect "]" s
          let (rest, s) ← readAttributes count s
          return (extensions ++ rest, s)
      | s => some ([], s)

/-- The value of a shape that a whole text writes. -/
def parse? (shape : Shape) (text : String) : Option Ron := do
  let s ← skipSpace text.toList
  let (extensions, s) ← readAttributes (s.length + 1) s
  let (value, s) ← read (extensions.contains .implicitSome) nestingLimit shape s
  if (← skipSpace s).isEmpty then return value else none

end BranchingStory.Ron
