import BranchingStory.Decimal.Digits
import BranchingStory.Decimal.Numeral

/-!
# Words, strings and numbers of the object notation

White space is space, tab, line feed and carriage return, and comments count as
white space.  A comment runs from two slashes to the end of the line, or from
`/*` to the `*/` that closes it, and the second kind nests.

Numbers are integers with an optional base, or decimal fractions.  An underscore
may stand anywhere in an integer but in front.
-/

namespace BranchingStory.Ron

/-- Reads a value off the front of a text, if one stands there. -/
abbrev Reader (α : Type) := List Char → Option (α × List Char)

/-! ## White space -/

/-- White space that is no comment. -/
def isSpace (c : Char) : Bool := c == ' ' || c == '\t' || c == '\n' || c == '\r'

/-- What a run of white space is inside of. -/
inductive Blank where
  /-- Nothing. -/
  | plain
  /-- A comment up to the end of the line. -/
  | line
  /-- A comment up to its closing mark, inside this many others. -/
  | block (depth : Nat)

/-- The text after some white space, unless a comment is not closed or a slash stands
alone. -/
def skip : Blank → List Char → Option (List Char)
  | .plain, '/' :: '/' :: s => skip .line s
  | .plain, '/' :: '*' :: s => skip (.block 0) s
  | .plain, c :: s =>
      if isSpace c then skip .plain s else if c = '/' then none else some (c :: s)
  | .plain, [] => some []
  | .line, c :: s => if c = '\n' then skip .plain s else skip .line s
  | .line, [] => some []
  | .block depth, '/' :: '*' :: s => skip (.block (depth + 1)) s
  | .block 0, '*' :: '/' :: s => skip .plain s
  | .block (depth + 1), '*' :: '/' :: s => skip (.block depth) s
  | .block depth, _ :: s => skip (.block depth) s
  | .block _, [] => none

/-- The text after its leading white space. -/
def skipSpace (s : List Char) : Option (List Char) := skip .plain s

/-! ## Identifiers -/

/-- A character that an identifier may start with. -/
def isNameStart (c : Char) : Bool := c.isAlpha || c == '_'

/-- A character that an identifier may go on with. -/
def isNameChar (c : Char) : Bool := c.isAlphanum || c == '_'

/-- A character of a raw identifier. -/
def isRawNameChar (c : Char) : Bool := isNameChar c || c == '.' || c == '+' || c == '-'

/-- An identifier.  A raw one has `r#` before it.  A plain one must not run into a
character that only a raw one may hold, and `r` before a quote starts a string. -/
def readName : Reader String
  | 'r' :: '"' :: _ => none
  | 'r' :: '#' :: s =>
      match s.span isRawNameChar with
      | ([], _) => none
      | (name, rest) => some (String.ofList name, rest)
  | [] => none
  | c :: s =>
      if isNameStart c then
        let (name, rest) := (c :: s).span isNameChar
        if rest.head?.any isRawNameChar then none else some (String.ofList name, rest)
      else none

/-- The text after a word that it starts with. -/
def dropWord? (word : String) (s : List Char) : Option (List Char) :=
  if word.toList.isPrefixOf s then some (s.drop word.toList.length) else none

/-- The text after a word that it starts with and that ends there. -/
def dropWholeWord? (word : String) (s : List Char) : Option (List Char) :=
  (dropWord? word s).filter fun rest => !rest.head?.any isNameChar

/-- One of some words with a meaning, if it stands there as a whole. -/
def readKeyword {α : Type} (words : List (String × α)) : Reader α := fun s =>
  words.findSome? fun (word, a) => (dropWholeWord? word s).map (a, ·)

/-! ## Strings and characters -/

/-- The character of a code, unless it is half of a surrogate pair or too large. -/
def charOfCode? (code : Nat) : Option Char :=
  if code.isValidChar then some (Char.ofNat code) else none

/-- The code in braces: one to six hexadecimal digits. -/
def readCode : Reader Char
  | '\x7b' :: s =>
      let digits := s.takeWhile (· != '\x7d')
      match s.dropWhile (· != '\x7d') with
      | [] => none
      | _ :: rest =>
          if digits.isEmpty || digits.length > 6 then none
          else ((natOfDigits? 16 digits).bind charOfCode?).map (·, rest)
  | _ => none

/-- The character that an escape stands for, after its backslash. -/
def readEscape : Reader Char
  | '\'' :: s => some ('\'', s)
  | '"' :: s => some ('"', s)
  | '\\' :: s => some ('\\', s)
  | 'n' :: s => some ('\n', s)
  | 'r' :: s => some ('\r', s)
  | 't' :: s => some ('\t', s)
  | '0' :: s => some ('\x00', s)
  | 'x' :: a :: b :: s => ((natOfDigits? 16 [a, b]).bind charOfCode?).map (·, s)
  | 'u' :: s => readCode s
  | _ => none

/-- The characters up to the closing quote, at most `count` of them. -/
def readChars : Nat → Reader (List Char)
  | 0, _ => none
  | count + 1, s =>
      match s with
      | [] => none
      | '"' :: s => some ([], s)
      | '\\' :: s => do
          let (c, s) ← readEscape s
          let (rest, s) ← readChars count s
          return (c :: rest, s)
      | c :: s => do
          let (rest, s) ← readChars count s
          return (c :: rest, s)

/-- The characters up to a quote and as many hashes as opened the string. -/
def readRawChars (hashes : List Char) : Reader (List Char)
  | [] => none
  | c :: s =>
      if c = '"' ∧ hashes.isPrefixOf s then some ([], s.drop hashes.length)
      else (readRawChars hashes s).map fun (rest, s) => (c :: rest, s)

/-- A string, plain or raw. -/
def readString : Reader String
  | '"' :: s => (readChars (s.length + 1) s).map fun (cs, s) => (String.ofList cs, s)
  | 'r' :: s =>
      let (hashes, s) := s.span (· == '#')
      match s with
      | '"' :: s => (readRawChars hashes s).map fun (cs, s) => (String.ofList cs, s)
      | _ => none
  | _ => none

/-- A character between single quotes. -/
def readChar : Reader Char
  | '\'' :: '\\' :: s =>
      match readEscape s with
      | some (c, '\'' :: s) => some (c, s)
      | _ => none
  | '\'' :: c :: '\'' :: s => if c = '\'' then none else some (c, s)
  | _ => none

/-! ## Numbers -/

/-- A character of an integer, after its base. -/
def isIntegerChar (c : Char) : Bool := (hexDigit? c).isSome || c == '_'

/-- A character of a decimal fraction. -/
def isDecimalChar (c : Char) : Bool :=
  c.isDigit || c == 'e' || c == 'E' || c == '.' || c == '+' || c == '-'

/-- The base that a text announces, and the text after it. -/
def readBase : List Char → Nat × List Char
  | '0' :: 'x' :: s => (16, s)
  | '0' :: 'b' :: s => (2, s)
  | '0' :: 'o' :: s => (8, s)
  | s => (10, s)

/-- An integer up to a limit, without a sign. -/
def readInteger (limit : Nat) : Reader Nat := fun s =>
  let (base, s) := readBase s
  let (digits, rest) := s.span isIntegerChar
  match digits with
  | [] => none
  | '_' :: _ => none
  | _ =>
      match natOfDigits? base (digits.filter (· != '_')) with
      | some n => if n ≤ limit then some (n, rest) else none
      | none => none

/-- The text after its sign, if it has one. -/
def dropSign : List Char → List Char
  | '+' :: s => s
  | '-' :: s => s
  | s => s

/-- Some digits, after at most one sign. -/
def isExponent (s : List Char) : Bool :=
  !(dropSign s).isEmpty && (dropSign s).all Char.isDigit

/-- Digits with at most one point among them and an exponent after them. -/
def isUnsignedDecimal (s : List Char) : Bool :=
  let mantissa := s.takeWhile fun c => c != 'e' && c != 'E'
  let exponent := s.drop mantissa.length
  mantissa.any Char.isDigit && (mantissa.filter (· == '.')).length ≤ 1
    && mantissa.all (fun c => c.isDigit || c == '.')
    && (exponent.isEmpty || isExponent (exponent.drop 1))

/-- The words for numbers that digits cannot write. -/
def endlessNumbers : List (String × Numeral) :=
  ["inf", "+inf", "-inf", "NaN", "+NaN", "-NaN"].map fun word => (word, .other word)

/-- A decimal fraction, or a word for a number. -/
def readDecimal : Reader Numeral := fun s =>
  match readKeyword endlessNumbers s with
  | some result => some result
  | none =>
      let (text, rest) := s.span isDecimalChar
      if isUnsignedDecimal (dropSign text) then some (.other (String.ofList text), rest) else none

/-- The text goes on like a fraction and not like an integer. -/
def looksDecimal (s : List Char) : Bool :=
  ((dropSign s).takeWhile isIntegerChar).length < ((dropSign s).takeWhile isDecimalChar).length

/-- An integer with its sign. -/
def readSigned : Reader Numeral
  | '+' :: s => (readInteger (Nat.pow 2 63 - 1) s).map fun (n, s) => (.other ("+" ++ n.repr), s)
  | '-' :: s => (readInteger (Nat.pow 2 63) s).map fun (n, s) => (.other ("-" ++ n.repr), s)
  | s => (readInteger maxCount s).map fun (n, s) => (.natural n, s)

/-- A number.  What is no integer in range is read as a fraction. -/
def readNumber : Reader Numeral := fun s =>
  if looksDecimal s then readDecimal s else (readSigned s).or (readDecimal s)

example : readNumber "0xfF_fF,".toList = some (.natural 0xFFFF, [',']) := by decide
example : readNumber "1__0_".toList = some (.natural 10, []) := by decide
example : (readNumber "_1".toList).isNone = true := by decide
example : readNumber "-1.5e3".toList = some (.other "-1.5e3", []) := by decide
example : readNumber "-NaN,".toList = some (.other "-NaN", [',']) := by decide
example : skipSpace " // a\n/* b /* c */ */ x".toList = some ['x'] := by decide
example : (readString "r#\"a\"b\"#".toList).map Prod.fst = some "a\"b" := by decide

end BranchingStory.Ron
