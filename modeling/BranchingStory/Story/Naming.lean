import BranchingStory.Text.Padding

/-!
# Names given by position

A record that its author left unnamed is named after its place.  The name is a
function of the place alone, so the same source always gets the same names and
a saved game keeps its references.

The two names with a meaning of their own stand here too: the entry node of
chapter `n` is `CHn_START`, and `ENDING` stands for the end of the story where
a link is rendered as a name.
-/

namespace BranchingStory

open Text (threeDigits)

/-- Where a node stands in the layout of its chapter.  Positions count from
zero. -/
inductive Slot where
  /-- A shared opening node.  Position zero is the entry of the chapter. -/
  | prologue (position : Nat)
  /-- A node of the track of one perspective. -/
  | track (pov : String) (position : Nat)
  /-- The node where the tracks meet. -/
  | investigation
  /-- The last node. -/
  | ending
deriving DecidableEq, Repr

/-- How the end of the story is rendered as a link target. -/
def endingName : String := "ENDING"

/-- The entry node of a chapter. -/
def entryName (chapter : Nat) : String := "CH" ++ chapter.repr ++ "_START"

/-- A letter or digit of ASCII in upper case, an underscore for anything else. -/
def labelChar (c : Char) : Char := if c.isAlphanum then c.toUpper else '_'

/-- The part of a node name that comes from a perspective. -/
def povLabel (pov : String) : String := String.ofList (pov.toList.map labelChar)

/-- The name of an unnamed node. -/
def Slot.nodeName (chapter : Nat) : Slot → String
  | .prologue 0 => entryName chapter
  | .prologue (position + 1) => "CH" ++ chapter.repr ++ "_" ++ threeDigits (position + 2)
  | .track pov position =>
      "CH" ++ chapter.repr ++ "_" ++ povLabel pov ++ "_" ++ threeDigits (position + 1)
  | .investigation => "CH" ++ chapter.repr ++ "_INVESTIGATION"
  | .ending => "CH" ++ chapter.repr ++ "_END"

/-- The name of an unnamed question. -/
def questionName (position : Nat) : String := "Q" ++ threeDigits (position + 1)

/-- The name of an unnamed case. -/
def caseName (number : Nat) : String := "CASE_" ++ threeDigits number

example : (Slot.prologue 0).nodeName 1 = "CH1_START" := by decide
example : (Slot.prologue 9).nodeName 12 = "CH12_010" := by decide
example : (Slot.track "consort" 0).nodeName 3 = "CH3_CONSORT_001" := by decide
example : (Slot.track "l'été 2" 999).nodeName 3 = "CH3_L__T__2_1000" := by decide
example : questionName 0 = "Q001" := by decide
example : caseName 4294967295 = "CASE_4294967295" := by decide

end BranchingStory
