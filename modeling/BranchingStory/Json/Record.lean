import Std.Data.ExtTreeMap
import Std.Data.ExtTreeSet
import BranchingStory.Json.Value

/-!
# Records in JSON

A record is an object with named fields.  A reader takes the fields it knows, in
any order, and skips the others.  A known field must not stand twice.  A record
may also be an array of the values of its first fields, in the order of their
declaration.

A map is an object too.  Of two values for one key the last one counts.

A variant of an enumeration is a string, or an object with one field that holds
what the variant carries.  A variant that carries nothing may hold null.
-/

namespace BranchingStory.Json

/-! ## Plain values -/

/-- A text. -/
def string? : Json → Option String
  | string s => some s
  | _ => none

/-- A number up to a limit. -/
def natUpTo? (limit : Nat) : Json → Option Nat
  | number n => n.upTo? limit
  | _ => none

/-- The number of a record. -/
def recordNumber? : Json → Option Nat := natUpTo? maxRecordNumber

/-- A count. -/
def count? : Json → Option Nat := natUpTo? maxCount

/-- A list of values that all read well. -/
def list? {α : Type} (decode : Json → Option α) : Json → Option (List α)
  | array items => items.mapM decode
  | _ => none

/-- A value, or null for none. -/
def option? {α : Type} (decode : Json → Option α) : Json → Option (Option α)
  | null => some none
  | v => (decode v).map some

/-! ## Maps and sets -/

/-- A map, in the order of its keys. -/
def ofMap {β : Type} (encode : β → Json) (m : Std.ExtTreeMap String β compare) : Json :=
  .object (m.toList.map fun (key, value) => (key, encode value))

/-- The value of a field. -/
def decodeField? {β : Type} (decode : Json → Option β) (field : String × Json) :
    Option (String × β) :=
  (decode field.2).map (field.1, ·)

/-- A map whose values all read well. -/
def map? {β : Type} (decode : Json → Option β) :
    Json → Option (Std.ExtTreeMap String β compare)
  | object fields => (fields.mapM (decodeField? decode)).map (.ofList ·)
  | _ => none

/-- The texts of a set, in order. -/
def ofSet (s : Std.ExtTreeSet String compare) : Json := ofList .string s.toList

/-- A set of texts, in any order and with repetitions. -/
def set? (v : Json) : Option (Std.ExtTreeSet String compare) := (list? string? v).map (.ofList ·)

/-! ## Records -/

/-- The values of the fields that a record of the given names has. -/
def record? (names : List String) : Json → Option (List (String × Json))
  | object fields =>
      let known := fields.filter (·.1 ∈ names)
      if (known.map Prod.fst).Nodup then some known else none
  | array items => if items.length ≤ names.length then some (names.zip items) else none
  | _ => none

/-- A field that has to be there. -/
def required? {α : Type} (fields : List (String × Json)) (name : String)
    (decode : Json → Option α) : Option α :=
  (fields.lookup name).bind decode

/-- A field that has a value of its own if it is absent. -/
def optional? {α : Type} (fields : List (String × Json)) (name : String) (absent : α)
    (decode : Json → Option α) : Option α :=
  match fields.lookup name with
  | none => some absent
  | some v => decode v

/-! ## Variants -/

/-- The name of a variant and what it carries. -/
def variant? : Json → Option (String × Option Json)
  | string name => some (name, none)
  | object [(name, v)] => some (name, some v)
  | _ => none

/-- A variant that carries nothing, by the name of it. -/
def unitVariant? {α : Type} (ofName? : String → Option α) (v : Json) : Option α :=
  match variant? v with
  | some (name, none) => ofName? name
  | some (name, some null) => ofName? name
  | _ => none

example : record? ["a", "b"] (object [("b", null), ("x", null), ("x", null)])
    = some [("b", null)] := rfl
example : record? ["a", "b"] (object [("b", null), ("b", null)]) = none := rfl

end BranchingStory.Json
