import BranchingStory.Repetition
import BranchingStory.Story.Node

/-!
# Chapters

A chapter is a list of nodes with a designated entry.  The entry need not
exist: a missing one is a finding about the whole chapter and not a fault in
building it.  Two nodes of one name are such a fault, and `Chapter.repeatedName?` finds
it.
-/

namespace BranchingStory

/-- Two parts of a record share a name. -/
inductive RepeatedName where
  | node (id : String)
  | question (id : String)
deriving DecidableEq, Repr

/-- The fault in words. -/
def RepeatedName.message : RepeatedName → String
  | node id => "duplicate node id '" ++ id ++ "'"
  | question id => "duplicate question id '" ++ id ++ "'"

/-- The nodes seen from one perspective, in reading order. -/
structure Track where
  pov : String
  nodes : List String
deriving DecidableEq, Repr

/-- A chapter of the compiled story. -/
structure Chapter where
  number : Nat
  title : Translations
  entry : String
  tracks : List Track
  nodes : List Node
deriving DecidableEq, Repr

namespace Chapter

/-- The names of the nodes. -/
def ids (c : Chapter) : List String := c.nodes.map Node.id

/-- The first name that two nodes share. -/
def repeatedName? (c : Chapter) : Option RepeatedName := (firstRepeat? c.ids).map .node

/-- The first node of that name. -/
def node? (c : Chapter) (id : String) : Option Node := c.nodes.find? (·.id == id)

/-- Some node has that name. -/
def contains (c : Chapter) (id : String) : Bool := c.nodes.any (·.id == id)

/-- The nodes of a kind, in order. -/
def ofKind (c : Chapter) (kind : NodeKind) : List Node := c.nodes.filter (·.kind == kind)

theorem contains_iff {c : Chapter} {id : String} : c.contains id = true ↔ id ∈ c.ids := by
  simp [contains, ids]

end Chapter

end BranchingStory
