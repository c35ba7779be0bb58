/-!
# Shapes

A text in RON is read with the shape of the expected value in mind.  A shape says
where options stand, since an option is read in a way of its own.  Everything else is
read the same wherever it stands, so a shape says nothing more.
-/

namespace BranchingStory.Ron

/-- Where a value has options. -/
inductive Shape where
  /-- Nowhere. -/
  | plain
  /-- The value is an option. -/
  | option (of : Shape)
  /-- In the elements of a list. -/
  | list (of : Shape)
  /-- In the fields of a record. -/
  | record (fields : List (String × Shape))
deriving Repr, Inhabited

namespace Shape

/-- The shape of an element. -/
def item : Shape → Shape
  | list of => of
  | _ => plain

/-- The shape of a field.  A field that no one reads is plain. -/
def field (name : String) : Shape → Shape
  | record fields => (fields.lookup name).getD plain
  | _ => plain

end Shape

end BranchingStory.Ron
