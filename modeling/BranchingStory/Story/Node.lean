import Std.Data.ExtTreeMap
import Std.Data.ExtTreeSet
import BranchingStory.Story.Naming

/-!
# Nodes

A node is the smallest unit of a story: one text, seen from one perspective,
with one outgoing link.  A node makes no promise about its link.  Whether a
target exists is a question about a whole chapter, and the checks of a chapter
ask it.
-/

namespace BranchingStory

/-- One text in several languages, keyed by language code. -/
abbrev Translations := Std.ExtTreeMap String String compare

/-- The role of a node in its chapter. -/
inductive NodeKind where
  | dialogue
  | investigation
  | chapterEnd
  | choice
deriving DecidableEq, Repr, Inhabited

namespace NodeKind

/-- The name authors write. -/
def name : NodeKind → String
  | dialogue => "dialogue"
  | investigation => "investigation"
  | chapterEnd => "chapter_end"
  | choice => "choice"

/-- Every kind. -/
def all : List NodeKind := [dialogue, investigation, chapterEnd, choice]

/-- The kind of that name. -/
def ofName? (s : String) : Option NodeKind := all.find? (·.name == s)

theorem ofName?_name (k : NodeKind) : ofName? k.name = some k := by
  cases k <;> decide

theorem name_of_ofName? {s : String} {k : NodeKind} (h : ofName? s = some k) : k.name = s := by
  simpa using List.find?_some h

theorem ofName?_eq_some_iff {s : String} {k : NodeKind} : ofName? s = some k ↔ k.name = s :=
  ⟨name_of_ofName?, fun h => h ▸ ofName?_name k⟩

theorem name_inj {k k' : NodeKind} : k.name = k'.name ↔ k = k' := by
  constructor
  · intro h
    exact Option.some.inj (by rw [← ofName?_name k, h, ofName?_name])
  · exact congrArg name

end NodeKind

/-- Whose eyes a node is seen through. -/
inductive Perspective where
  /-- Everyone passes the node. -/
  | shared
  /-- The node belongs to the track of one perspective. -/
  | track (pov : String)
deriving DecidableEq, Repr, Inhabited

/-- The name of a perspective.  `all` is the shared one. -/
def Perspective.name : Perspective → String
  | shared => "all"
  | track pov => pov

/-- One option of a choice. -/
structure Choice where
  /-- What the player reads. -/
  text : Translations
  /-- The node the option leads to. -/
  target : String
deriving DecidableEq, Repr

/-- Where a node leads. -/
inductive Link where
  /-- To a node of the same chapter. -/
  | node (id : String)
  /-- To the entry of a chapter. -/
  | chapter (number : Nat)
  /-- To the target of whichever option the player takes. -/
  | choice (options : List Choice)
  /-- To the end of the story. -/
  | ending
deriving DecidableEq, Repr

namespace Link

/-- Every target, rendered as a node name. -/
def targets : Link → List String
  | node id => [id]
  | chapter number => [entryName number]
  | choice options => options.map Choice.target
  | ending => [endingName]

/-- The targets inside the chapter of the node. -/
def localTargets : Link → List String
  | node id => [id]
  | choice options => options.map Choice.target
  | chapter _ => []
  | ending => []

/-- The options of a choice.  Other links have none. -/
def options : Link → List Choice
  | choice options => options
  | _ => []

end Link

/-- A node of a compiled chapter. -/
structure Node where
  /-- The name of the node. -/
  id : String
  /-- Its role. -/
  kind : NodeKind
  /-- Who speaks, in a dialogue. -/
  speaker : Option String
  /-- What the player reads. -/
  text : Translations
  /-- Where it leads. -/
  next : Link
  /-- Whose eyes it is seen through. -/
  pov : Perspective
  /-- Labels of its author. -/
  tags : Std.ExtTreeSet String compare
deriving DecidableEq, Repr

namespace Node

/-- The node carries the tag. -/
def hasTag (n : Node) (tag : String) : Bool := n.tags.contains tag

/-- The nodes of the same chapter that the node leads to. -/
def localTargets (n : Node) : List String := n.next.localTargets

end Node

example : (Link.chapter 4).targets = ["CH4_START"] := by decide
example : Link.ending.targets = ["ENDING"] := by decide
example : NodeKind.ofName? "Dialogue" = none := by decide

end BranchingStory
