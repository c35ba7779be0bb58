import Std.Data.ExtTreeMap
import BranchingStory.Loop
import BranchingStory.Repetition

/-!
# The registry of languages

A registry knows the languages that texts may be asked for in.  A language may
have a parent, such as the language it is a variant of.  A text that is missing in
a language is taken from its parents, nearest first, and last from the reference
language, which has every text.  These languages in this order are the *chain* of
the language.

Chains are worked out once, when the registry is built.  Building fails if a code
repeats, if the reference language is missing or has a parent, if a parent is
missing, or if parents go in a circle.
-/

namespace BranchingStory

/-- The direction of writing. -/
inductive Direction where
  | leftToRight
  | rightToLeft
deriving DecidableEq, Repr, Inhabited

namespace Direction

/-- The short name. -/
def name : Direction → String
  | leftToRight => "ltr"
  | rightToLeft => "rtl"

/-- Both directions. -/
def all : List Direction := [leftToRight, rightToLeft]

/-- The direction of that short name. -/
def ofName? (s : String) : Option Direction := all.find? (·.name == s)

end Direction

/-- A language as it is registered. -/
structure Language where
  /-- The code that texts are keyed by. -/
  code : String
  /-- The name of the language in the language. -/
  displayName : String
  /-- The direction it is written in. -/
  direction : Direction := .leftToRight
  /-- The language to fall back to before the reference language. -/
  parent : Option String := none
deriving DecidableEq, Repr

/-- A language of a registry with its chain. -/
structure LocaleEntry where
  /-- The code. -/
  code : String
  /-- The name of the language in the language. -/
  displayName : String
  /-- The direction it is written in. -/
  direction : Direction
  /-- The languages to look for a text in, the language itself first. -/
  chain : List String
deriving DecidableEq, Repr

/-- Languages with their chains. -/
structure Registry where
  /-- The language that every chain ends with. -/
  reference : String
  /-- The languages by code. -/
  entries : Std.ExtTreeMap String LocaleEntry compare
deriving DecidableEq, Repr

/-- Why languages make no registry, or not the registry that is wanted. -/
inductive RegistryError where
  /-- The bytes of the file are no text. -/
  | unreadable
  /-- The text is no list of languages. -/
  | malformed
  | missingReference (code : String)
  | duplicateCode (code : String)
  | unknownParent (code parent : String)
  | fallbackCycle (code : String)
  | referenceHasParent (code : String)
  | referenceMismatch (expected actual : String)
deriving DecidableEq, Repr

/-- The error in words. -/
def RegistryError.message : RegistryError → String
  | unreadable => "IO error: stream did not contain valid UTF-8"
  | malformed => "RON deserialization error: not a registry"
  | missingReference code => "reference language '" ++ code ++ "' is not registered"
  | duplicateCode code => "language '" ++ code ++ "' is registered twice"
  | unknownParent code parent =>
      "language '" ++ code ++ "' falls back to unknown language '" ++ parent ++ "'"
  | fallbackCycle code => "fallback cycle through '" ++ code ++ "'"
  | referenceHasParent code =>
      "reference language '" ++ code ++ "' must not fall back to another language"
  | referenceMismatch expected actual =>
      "reference language '" ++ expected ++ "' differs from the registry reference '"
        ++ actual ++ "'"

/-! ## Building a registry -/

/-- Registered languages by code. -/
abbrev LanguageTable := Std.ExtTreeMap String Language compare

/-- A climb from a language to its parent, to the parent of that, and so on. -/
structure Climb where
  /-- The language that the climb has come to. -/
  current : Language
  /-- The codes that it has passed, that of the current language last. -/
  passed : List String
deriving DecidableEq, Repr

namespace Registry

/-- The next step of a climb, which ends at a language without a parent.  It fails if a
parent is not registered or was passed before.  A climb in a circle is reported by
`start`, the language it set out from. -/
def climbStep (table : LanguageTable) (start : String) : Loop (Except RegistryError Climb)
  | .error _ => none
  | .ok climb =>
      climb.current.parent.map fun parent =>
        match table[parent]? with
        | none => .error (.unknownParent climb.current.code parent)
        | some next =>
            if parent ∈ climb.passed then .error (.fallbackCycle start)
            else .ok { current := next, passed := climb.passed ++ [parent] }

/-- The climb from a language to the last of its parents.  A climb without an end would
be one in a circle. -/
def climb (table : LanguageTable) (l : Language) : Except RegistryError Climb :=
  (Loop.run (climbStep table l.code) (.ok { current := l, passed := [l.code] })).getD
    (.error (.fallbackCycle l.code))

/-- The entry of a language.  Its chain is the language, then its parents, then the
reference language unless that is the last of these already. -/
def entryOf (table : LanguageTable) (reference : String) (l : Language) :
    Except RegistryError LocaleEntry :=
  (climb table l).map fun climb =>
    { code := l.code
      displayName := l.displayName
      direction := l.direction
      chain :=
        if climb.current.code = reference then climb.passed else climb.passed ++ [reference] }

/-- Languages by code. -/
def tableOf (languages : List Language) : LanguageTable :=
  .ofList (languages.map fun l => (l.code, l))

/-- The registry of some languages.  Of several errors the first counts: a repeated
code, then a fault of the reference language, then the parents of each language in
the order of the codes. -/
def build (reference : String) (languages : List Language) : Except RegistryError Registry :=
  match firstRepeat? (languages.map Language.code) with
  | some code => .error (.duplicateCode code)
  | none =>
      let table := tableOf languages
      match table[reference]? with
      | none => .error (.missingReference reference)
      | some l =>
          if l.parent.isSome then .error (.referenceHasParent reference)
          else (table.values.mapM (entryOf table reference)).map fun entries =>
            { reference := reference
              entries := .ofList (entries.map fun entry => (entry.code, entry)) }

/-! ## Asking a registry -/

/-- The language of a code. -/
def get? (r : Registry) (code : String) : Option LocaleEntry := r.entries[code]?

/-- The code is registered. -/
def contains (r : Registry) (code : String) : Bool := r.entries.contains code

/-- The registered codes in order. -/
def codes (r : Registry) : List String := r.entries.keys

/-- The languages to look for a text in.  An unregistered language has those of the
reference language. -/
def chain (r : Registry) (code : String) : List String :=
  (((r.get? code).or (r.get? r.reference)).map LocaleEntry.chain).getD []

/-- The direction of a language.  An unregistered language is written like the
reference language. -/
def direction (r : Registry) (code : String) : Direction :=
  (((r.get? code).or (r.get? r.reference)).map LocaleEntry.direction).getD .leftToRight

/-- The codes of the languages written from right to left. -/
def rightToLeft (r : Registry) : List String :=
  (r.entries.values.filter (·.direction == .rightToLeft)).map LocaleEntry.code

/-- The codes that are not registered. -/
def missing (r : Registry) (required : List String) : List String :=
  required.filter (!r.contains ·)

/-- A language other than the one every chain ends with is an error. -/
def checkReference (r : Registry) (language : String) : Except RegistryError Unit :=
  if language = r.reference then .ok ()
  else .error (.referenceMismatch language r.reference)

end Registry

end BranchingStory
