import BranchingStory.Decimal.Digits
import BranchingStory.Decimal.Numeral

/-!
# Command lines

A tool takes long options.  An option is a flag or takes a value, as `--name value` or
as `--name=value`.  An option must not stand twice.  A value that starts with a hyphen
has to be attached, unless it is a hyphen alone.  Two hyphens end the options, and
nothing may follow them, since no tool takes a plain argument.

`--help` and `-h` ask how a tool is used.  Arguments are read in order, so they ask it only
if all arguments before them can be used, and then the others do not matter.
-/

namespace BranchingStory.CommandLine

/-- What an option takes. -/
inductive Kind where
  /-- Nothing. -/
  | flag
  /-- A path, which must not be empty. -/
  | path
  /-- Any text. -/
  | text
  /-- The number of a record. -/
  | number
deriving DecidableEq, Repr

/-- The options of a tool. -/
abbrev Usage := List (String × Kind)

/-- Why a tool does not run. -/
inductive Refusal where
  /-- It is asked how the tool is used. -/
  | help
  /-- The arguments cannot be used. -/
  | badUsage
deriving DecidableEq, Repr

/-- The value of some decimal digits. -/
def decimal? (digits : List Char) : Option Nat :=
  if !digits.isEmpty && digits.all Char.isDigit then some (natOfDecimal digits) else none

/-- The number of a record, with or without a plus sign.  Zero may have a minus
sign. -/
def number? (value : String) : Option Nat :=
  let inRange (n : Nat) : Option Nat := if n ≤ maxRecordNumber then some n else none
  match value.toList with
  | '+' :: digits => (decimal? digits).bind inRange
  | '-' :: digits => (decimal? digits).bind fun n => if n = 0 then some 0 else none
  | digits => (decimal? digits).bind inRange

/-- The value is one that the option takes. -/
def Kind.accepts (value : String) : Kind → Bool
  | flag => false
  | path => value != ""
  | text => true
  | number => (number? value).isSome

/-- The name of an option and the value attached to it. -/
def option? (argument : String) : Option (String × Option String) :=
  match argument.toList with
  | '-' :: '-' :: rest =>
      let name := String.ofList (rest.takeWhile (· != '='))
      match rest.dropWhile (· != '=') with
      | [] => some (name, none)
      | _ :: value => some (name, some (String.ofList value))
  | _ => none

/-- The argument starts with a hyphen and is not one alone. -/
def looksLikeOption (argument : String) : Bool :=
  argument.toList.head? == some '-' && argument != "-"

/-- The argument asks how the tool is used.  What is attached to the short form does not matter. -/
def asksForHelp (argument : String) : Bool :=
  argument == "--help" || ['-', 'h'].isPrefixOf argument.toList

/-- The options that are given, with their values.  A flag has the empty value.  `found`
holds those before. -/
def parseFrom (usage : Usage) (found : List (String × String)) :
    List String → Except Refusal (List (String × String))
  | [] => .ok found
  | argument :: rest =>
      if argument = "--" then if rest.isEmpty then .ok found else .error .badUsage
      else if asksForHelp argument then .error .help
      else
        match option? argument with
        | none => .error .badUsage
        | some (name, attached) =>
            if (found.lookup name).isSome then .error .badUsage
            else
              match usage.lookup name, attached, rest with
              | some .flag, none, rest => parseFrom usage ((name, "") :: found) rest
              | some .flag, some _, _ => .error .badUsage
              | some kind, some value, rest =>
                  if kind.accepts value then parseFrom usage ((name, value) :: found) rest
                  else .error .badUsage
              | some kind, none, value :: rest =>
                  if !looksLikeOption value && kind.accepts value then
                    parseFrom usage ((name, value) :: found) rest
                  else .error .badUsage
              | some _, none, [] => .error .badUsage
              | none, _, _ => .error .badUsage

/-- The options that are given, with their values. -/
def parse (usage : Usage) (arguments : List String) : Except Refusal (List (String × String)) :=
  parseFrom usage [] arguments

/-- How an option is shown. -/
def shown (name : String) : Kind → String
  | .flag => "      --" ++ name ++ "\n"
  | _ =>
      let value := name.toList.map fun c => if c = '-' then '_' else c.toUpper
      "      --" ++ name ++ " <" ++ String.ofList value ++ ">\n"

/-- How a tool is used. -/
def Usage.text (usage : Usage) (tool : String) : String :=
  "Usage: " ++ tool ++ " [OPTIONS]\n\nOptions:\n"
    ++ String.join (usage.map fun (name, kind) => shown name kind) ++ "  -h, --help\n"

example : (parse [("n", .number), ("f", .flag)] ["--n", "3", "--f"]).toOption
    = some [("f", ""), ("n", "3")] := by decide +kernel
example : (parse [("n", .number)] ["--n", "-1"]).toOption = none := by decide +kernel
example : (parse [("n", .number)] ["--n=4294967296"]).toOption = none := by decide +kernel
example : Usage.text [("n-m", .number)] "t"
    = "Usage: t [OPTIONS]\n\nOptions:\n      --n-m <N_M>\n  -h, --help\n" := by decide +kernel

end BranchingStory.CommandLine
