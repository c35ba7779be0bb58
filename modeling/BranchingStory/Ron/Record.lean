import Std.Data.ExtTreeMap
import BranchingStory.Ron.Parser

/-!
# Records in the object notation

A record is named fields in parentheses.  Its type may be named before them.  A reader
takes the fields it knows, in any order, and skips the others.  A known field must not
stand twice.
-/

namespace BranchingStory.Ron

/-! ## Plain values -/

/-- A text. -/
def string? : Ron → Option String
  | string s => some s
  | _ => none

/-- The number of a record. -/
def recordNumber? : Ron → Option Nat
  | number n => n.upTo? maxRecordNumber
  | _ => none

/-- A list of values that all read well. -/
def list? {α : Type} (decode : Ron → Option α) : Ron → Option (List α)
  | list items => items.mapM decode
  | _ => none

/-- An option whose value reads well, if it has one. -/
def option? {α : Type} (decode : Ron → Option α) : Ron → Option (Option α)
  | option none => some none
  | option (some v) => (decode v).map some
  | _ => none

/-- A text with its key. -/
def decodeEntry? (entry : Ron × Ron) : Option (String × String) := do
  return (← string? entry.1, ← string? entry.2)

/-- Texts by key.  Of two texts of one key the last one counts. -/
def texts? : Ron → Option (Std.ExtTreeMap String String compare)
  | map entries => (entries.mapM decodeEntry?).map (.ofList ·)
  | _ => none

/-- One of some variants that carry nothing. -/
def word? {α : Type} (ofName? : String → Option α) : Ron → Option α
  | word name => ofName? name
  | _ => none

/-! ## Records -/

/-- The values of the known fields that a record of a type has. -/
def record? (type : String) (known : List (String × Shape)) : Ron → Option (List (String × Ron))
  | struct name fields =>
      let found := fields.filter fun field => (known.lookup field.1).isSome
      if name.getD type = type ∧ (found.map Prod.fst).Nodup then some found else none
  | tuple name [] => if name.getD type = type then some [] else none
  | _ => none

/-- A field that has to be there. -/
def required? {α : Type} (fields : List (String × Ron)) (name : String)
    (decode : Ron → Option α) : Option α :=
  (fields.lookup name).bind decode

/-- A field that has a value of its own if it is absent. -/
def optional? {α : Type} (fields : List (String × Ron)) (name : String) (absent : α)
    (decode : Ron → Option α) : Option α :=
  match fields.lookup name with
  | none => some absent
  | some v => decode v

end BranchingStory.Ron
