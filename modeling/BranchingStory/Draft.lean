import BranchingStory.Puzzle.Case

/-!
# Drafts

A draft is a record as its author wrote it.  What the compiler has to check is
optional here or free text, so a missing or misspelt field is reported by name
and does not make the whole record unreadable.
-/

namespace BranchingStory

/-- A link that its author chose. -/
inductive LinkDraft where
  /-- To a node of the same chapter. -/
  | node (id : String)
  /-- To the entry of a chapter. -/
  | chapter (number : Nat)
  /-- To the end of the story. -/
  | ending
deriving DecidableEq, Repr

/-- The link as the compiled story has it. -/
def LinkDraft.toLink : LinkDraft → Link
  | node id => .node id
  | chapter number => .chapter number
  | ending => .ending

/-- One option of a choice. -/
structure ChoiceDraft where
  /-- What the player reads. -/
  text : Translations := ∅
  /-- The node the option leads to. -/
  target : String
deriving DecidableEq, Repr

/-- The option as the compiled story has it. -/
def ChoiceDraft.toChoice (o : ChoiceDraft) : Choice := ⟨o.text, o.target⟩

/-- A node. -/
structure NodeDraft where
  /-- Its name, or else it is named after its place. -/
  id : Option String := none
  /-- The name of its kind. -/
  kind : Option String := none
  /-- Who speaks. -/
  speaker : Option String := none
  /-- What the player reads. -/
  text : Translations := ∅
  /-- Where it leads, or else to its successor in the layout. -/
  next : Option LinkDraft := none
  /-- The options of a choice. -/
  options : List ChoiceDraft := []
  /-- Labels, in any order and with repetitions. -/
  tags : List String := []
deriving DecidableEq, Repr, Inhabited

/-- The nodes of one perspective. -/
structure TrackDraft where
  /-- The perspective. -/
  pov : String
  /-- What the player reads when the chapter opens with a choice of tracks. -/
  label : Translations := ∅
  /-- The nodes, in reading order. -/
  nodes : List NodeDraft := []
deriving DecidableEq, Repr

/-- A chapter. -/
structure ChapterDraft where
  /-- Its place in the story. -/
  number : Nat
  /-- Its title. -/
  title : Translations := ∅
  /-- The opening that everyone reads. -/
  prologue : List NodeDraft := []
  /-- One track for each perspective. -/
  tracks : List TrackDraft := []
  /-- The node where the tracks meet. -/
  investigation : Option NodeDraft := none
  /-- The last node. -/
  ending : Option NodeDraft := none
deriving DecidableEq, Repr

/-- A question of a case. -/
structure QuestionDraft where
  /-- Its name, or else it is named after its place. -/
  id : Option String := none
  /-- What the player asks. -/
  text : Translations := ∅
  /-- The name of the reply. -/
  answer : Option String := none
  /-- The names of what it unlocks. -/
  unlocks : List String := []
deriving DecidableEq, Repr

/-- A case. -/
structure CaseDraft where
  /-- Its place among the cases. -/
  number : Nat
  /-- Its name, or else it is named after its number. -/
  caseId : Option String := none
  /-- Its title. -/
  title : Translations := ∅
  /-- The name of its difficulty, or else it is of medium difficulty. -/
  difficulty : Option String := none
  /-- The situation the player has to explain. -/
  scenario : Translations := ∅
  /-- Its questions. -/
  questions : List QuestionDraft := []
  /-- The explanation. -/
  solution : Translations := ∅
  /-- Help for a stuck player. -/
  hints : List Translations := []
  /-- A remark on the playing time. -/
  estimatedTime : Option String := none
deriving DecidableEq, Repr

/-- A text in English alone, as sample drafts have it. -/
def english (text : String) : Translations := (∅ : Translations).insert "english" text

end BranchingStory
