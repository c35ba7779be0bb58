import BranchingStory.Json.Value

/-!
# Printing JSON

Two styles are in use.  The pretty one gives each element a line of its own and
indents it by two spaces for each enclosing bracket.  The compact one writes no
white space.  In both an empty array is `[]` and an empty object is `\x7b\x7d`.

A string is written raw but for the quote, the backslash and the control
characters below the space.
-/

namespace BranchingStory.Json

/-! ## Strings -/

/-- The escape of a control character that has no short one. -/
def escapeControl (c : Char) : List Char :=
  ['\\', 'u', '0', '0', (c.toNat / 16).digitChar, (c.toNat % 16).digitChar]

/-- A character as a string holds it. -/
def escapeChar (c : Char) : List Char :=
  if c = '"' then ['\\', '"']
  else if c = '\\' then ['\\', '\\']
  else if c = '\x08' then ['\\', 'b']
  else if c = '\x0c' then ['\\', 'f']
  else if c = '\n' then ['\\', 'n']
  else if c = '\r' then ['\\', 'r']
  else if c = '\t' then ['\\', 't']
  else if c.toNat < 32 then escapeControl c
  else [c]

/-- A string with its quotes. -/
def quote (s : String) : List Char := '"' :: s.toList.flatMap escapeChar ++ ['"']

/-! ## Values -/

/-- Where a printer puts white space. -/
structure Style where
  /-- What stands before an element, or before the bracket that closes a non-empty
  array or object, at a depth of enclosing brackets. -/
  lineBreak : Nat → List Char
  /-- What stands between a key and its value. -/
  colon : List Char

/-- A line for each element. -/
def Style.pretty : Style := ⟨fun depth => '\n' :: List.replicate (2 * depth) ' ', [':', ' ']⟩

/-- No white space. -/
def Style.compact : Style := ⟨fun _ => [], [':']⟩

mutual

/-- A value inside `depth` brackets.  A value that holds no text prints as null. -/
def print (style : Style) (depth : Nat) : Json → List Char
  | null => "null".toList
  | bool true => "true".toList
  | bool false => "false".toList
  | number (.natural n) => n.repr.toList
  | number (.other text) => text.toList
  | string s => quote s
  | illFormed => "null".toList
  | array [] => ['[', ']']
  | array items => '[' :: printItems style (depth + 1) items ++ style.lineBreak depth ++ [']']
  | object [] => ['\x7b', '\x7d']
  | object fields =>
      '\x7b' :: printFields style (depth + 1) fields ++ style.lineBreak depth ++ ['\x7d']
termination_by structural v => v

/-- The elements of an array, with commas between them. -/
def printItems (style : Style) (depth : Nat) : List Json → List Char
  | [] => []
  | [v] => style.lineBreak depth ++ print style depth v
  | v :: rest => style.lineBreak depth ++ print style depth v ++ ',' :: printItems style depth rest
termination_by structural items => items

/-- The fields of an object, with commas between them. -/
def printFields (style : Style) (depth : Nat) : List (String × Json) → List Char
  | [] => []
  | [(key, v)] => style.lineBreak depth ++ quote key ++ style.colon ++ print style depth v
  | (key, v) :: rest =>
      style.lineBreak depth ++ quote key ++ style.colon ++ print style depth v
        ++ ',' :: printFields style depth rest
termination_by structural fields => fields

end

/-- A value in the pretty style. -/
def pretty (v : Json) : String := String.ofList (v.print .pretty 0)

/-- A value in the compact style. -/
def compact (v : Json) : String := String.ofList (v.print .compact 0)

example : (object [("a", array [nat 1, nat 2]), ("b", object []), ("c", array [])]).pretty
    = "\x7b\n  \"a\": [\n    1,\n    2\n  ],\n  \"b\": \x7b\x7d,\n  \"c\": []\n\x7d" := by decide
example : (object [("a", array [nat 1, null])]).compact = "\x7b\"a\":[1,null]\x7d" := by decide
example : (string "\"\\\x08\x0c\n\r\t\x1f/é").compact
    = "\"\\\"\\\\\\b\\f\\n\\r\\t\\u001f/é\"" := by decide

end BranchingStory.Json
