import BranchingStory.Decimal.Digits
import BranchingStory.Json.Value

/-!
# Reading JSON

The reader is strict: no comma before a closing bracket, no comment, no control
character in a string, nothing but white space after the value.  Nesting has no
limit.  `Json.read` counts the brackets it may still open, and a text cannot open
more of them than it has characters.

A string may escape half of a surrogate pair.  Such a string is read as
`Json.illFormed`, so that it may stand where no one reads it.
-/

namespace BranchingStory.Json

/-- Reads a value off the front of a text, if one stands there. -/
abbrev Reader (α : Type) := List Char → Option (α × List Char)

/-- White space: space, tab, line feed and carriage return. -/
def isSpace (c : Char) : Bool := c == ' ' || c == '\t' || c == '\n' || c == '\r'

/-- The text after its leading white space. -/
def skipSpace (s : List Char) : List Char := s.dropWhile isSpace

/-! ## Strings -/

/-- The character that a backslash and a letter stand for. -/
def shortEscape? : Char → Option Char
  | '"' => some '"'
  | '\\' => some '\\'
  | '/' => some '/'
  | 'b' => some '\x08'
  | 'f' => some '\x0c'
  | 'n' => some '\n'
  | 'r' => some '\r'
  | 't' => some '\t'
  | _ => none

/-- The codes of the characters up to the closing quote.  An escape may give half of
a surrogate pair. -/
def readCodes : Reader (List Nat)
  | [] => none
  | '"' :: s => some ([], s)
  | '\\' :: 'u' :: a :: b :: c :: d :: s => do
      let code ← natOfDigits? 16 [a, b, c, d]
      let (codes, s) ← readCodes s
      return (code :: codes, s)
  | '\\' :: c :: s => do
      let c ← shortEscape? c
      let (codes, s) ← readCodes s
      return (c.toNat :: codes, s)
  | c :: s => do
      if c.toNat < 32 ∨ c = '\\' then none
      let (codes, s) ← readCodes s
      return (c.toNat :: codes, s)

/-- The code is the first half of a surrogate pair. -/
def isHighSurrogate (code : Nat) : Bool := 0xD800 ≤ code && code ≤ 0xDBFF

/-- The code is the second half of a surrogate pair. -/
def isLowSurrogate (code : Nat) : Bool := 0xDC00 ≤ code && code ≤ 0xDFFF

/-- The characters that the codes stand for, if every surrogate has its other half. -/
def joinSurrogates? : List Nat → Option (List Char)
  | [] => some []
  | high :: low :: rest =>
      if isHighSurrogate high then
        if isLowSurrogate low then
          (joinSurrogates? rest).map
            (Char.ofNat (0x10000 + (high - 0xD800) * 0x400 + (low - 0xDC00)) :: ·)
        else none
      else if isLowSurrogate high then none
      else (joinSurrogates? (low :: rest)).map (Char.ofNat high :: ·)
  | [code] =>
      if isHighSurrogate code || isLowSurrogate code then none else some [Char.ofNat code]

/-- A string after its opening quote.  It holds no text if a surrogate stands alone. -/
def readString : Reader (Option String) := fun s => do
  let (codes, s) ← readCodes s
  return ((joinSurrogates? codes).map String.ofList, s)

/-! ## Numbers -/

/-- The digits at the front of a text. -/
def readDigits (s : List Char) : List Char × List Char := s.span Char.isDigit

/-- The integer part: a zero alone, or digits that do not start with zero. -/
def readInteger : Reader (List Char)
  | '0' :: s => some (['0'], s)
  | s =>
      match readDigits s with
      | ([], _) => none
      | result => some result

/-- A point and the digits after it, or nothing. -/
def readFraction : List Char → List Char × List Char
  | '.' :: s =>
      match readDigits s with
      | ([], _) => ([], '.' :: s)
      | (digits, s) => ('.' :: digits, s)
  | s => ([], s)

/-- The sign of an exponent, or nothing. -/
def readSign : List Char → List Char × List Char
  | '+' :: s => (['+'], s)
  | '-' :: s => (['-'], s)
  | s => ([], s)

/-- An exponent, or nothing. -/
def readExponent : List Char → List Char × List Char
  | [] => ([], [])
  | c :: s =>
      if c = 'e' ∨ c = 'E' then
        let (sign, s') := readSign s
        match readDigits s' with
        | ([], _) => ([], c :: s)
        | (digits, s'') => (c :: sign ++ digits, s'')
      else ([], c :: s)

/-- A number.  It is natural if digits are all of it. -/
def readNumber : Reader Numeral := fun s => do
  let (sign, s) := match s with
    | '-' :: s => (['-'], s)
    | s => ([], s)
  let (integer, s) ← readInteger s
  let (fraction, s) := readFraction s
  let (exponent, s) := readExponent s
  if sign.isEmpty && fraction.isEmpty && exponent.isEmpty then
    return (.natural (natOfDecimal integer), s)
  else return (.other (String.ofList (sign ++ integer ++ fraction ++ exponent)), s)

/-! ## Values -/

/-- The rest of a list after its opening bracket, up to the closing one.  The list
is not empty, and holds at most `count` elements. -/
def readElements {α : Type} (item : Reader α) (close : Char) (count : Nat) : Reader (List α) :=
  fun s =>
    match count with
    | 0 => none
    | count + 1 => do
        let (a, s) ← item s
        match skipSpace s with
        | [] => none
        | c :: s =>
            if c = ',' then
              let (rest, s) ← readElements item close count s
              return (a :: rest, s)
            else if c = close then return ([a], s)
            else none

/-- A list after its opening bracket. -/
def readList {α : Type} (item : Reader α) (close : Char) : Reader (List α) := fun s =>
  match skipSpace s with
  | [] => none
  | c :: rest => if c = close then some ([], rest) else readElements item close s.length s

/-- A key, a colon and a value. -/
def readField (value : Reader Json) : Reader (Option String × Json) := fun s => do
  let '"' :: s := skipSpace s | none
  let (key, s) ← readString s
  let ':' :: s := skipSpace s | none
  let (v, s) ← value s
  return ((key, v), s)

/-- A field whose key holds text. -/
def textField? (field : Option String × Json) : Option (String × Json) :=
  field.1.map (·, field.2)

/-- An object of the fields, if every key holds text. -/
def ofFields (fields : List (Option String × Json)) : Json :=
  ((fields.mapM textField?).map object).getD illFormed

/-- A value that opens at most `depth` brackets inside each other, less one. -/
def read : Nat → Reader Json
  | 0, _ => none
  | depth + 1, s =>
      match skipSpace s with
      | '\x7b' :: s =>
          (readList (readField (read depth)) '\x7d' s).map fun (l, s) => (ofFields l, s)
      | '[' :: s => (readList (read depth) ']' s).map fun (l, s) => (array l, s)
      | '"' :: s => (readString s).map fun (t, s) => ((t.map string).getD illFormed, s)
      | 'n' :: 'u' :: 'l' :: 'l' :: s => some (null, s)
      | 't' :: 'r' :: 'u' :: 'e' :: s => some (bool true, s)
      | 'f' :: 'a' :: 'l' :: 's' :: 'e' :: s => some (bool false, s)
      | s => (readNumber s).map fun (n, s) => (number n, s)

/-- The value that a whole text writes. -/
def parse? (text : String) : Option Json := do
  let s := text.toList
  let (v, rest) ← read (s.length + 1) s
  if (skipSpace rest).isEmpty then return v else none

end BranchingStory.Json
