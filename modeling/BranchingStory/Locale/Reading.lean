import BranchingStory.Locale.Registry
import BranchingStory.Ron.Record

/-!
# Reading a registry

How a registry is read from the object notation: the code of the reference language
and the list of the languages.
-/

namespace BranchingStory

open Ron (Shape string? list? option? word? record? required? optional?)

namespace Language

/-- The fields of a language. -/
def fields : List (String × Shape) :=
  [("code", .plain), ("display_name", .plain), ("direction", .plain), ("parent", .option .plain)]

/-- Reads a language. -/
def ofRon? (v : Ron) : Option Language := do
  let found ← record? "LocaleSpec" fields v
  return { code := ← required? found "code" string?
           displayName := ← required? found "display_name" string?
           direction := ← optional? found "direction" .leftToRight (word? Direction.ofName?)
           parent := ← optional? found "parent" none (option? string?) }

end Language

namespace Registry

/-- The fields of a registry. -/
def fields : List (String × Shape) :=
  [("reference", .plain), ("languages", .list (.record Language.fields))]

/-- Reads the reference language and the languages. -/
def languages? (v : Ron) : Option (String × List Language) := do
  let found ← record? "Registry" fields v
  return (← required? found "reference" string?,
    ← required? found "languages" (list? Language.ofRon?))

/-- The registry that a whole text writes. -/
def parse (text : String) : Except RegistryError Registry :=
  match (Ron.parse? (.record fields) text).bind languages? with
  | none => .error .malformed
  | some (reference, languages) => build reference languages

end Registry

end BranchingStory
