import BranchingStory.Diagnostic
import BranchingStory.Graph.Cycles
import BranchingStory.Graph.Survey
import BranchingStory.Puzzle.Case

/-!
# Checking a case

The checks of a case look at what its questions unlock.  They find unlocks of
questions that do not exist, circles of questions that unlock each other, and
questions that never lead to the solution.  The last are looked for only in a
case without circles.  Where several questions share a name, the last of them
says what the name unlocks.
-/

namespace BranchingStory.Case

/-- The question that an unlock of a name makes available. -/
def unlocked? (c : Case) (id : String) : Option Question := c.questions.findRev? (·.id == id)

/-- The unlocks of questions that the case has. -/
def graph (c : Case) : Graph String :=
  { vertices := c.ids
    next := fun id => ((c.unlocked? id).map fun q => q.targets.filter (· ∈ c.ids)).getD [] }

/-- The question unlocks the solution. -/
def solves (c : Case) (id : String) : Bool := (c.unlocked? id).any Question.solves

/-- For each question whether some path of unlocks leads from it to the solution. -/
def prospects (c : Case) : List (String × Bool) := c.graph.survey c.solves c.ids

/-- Some path of unlocks leads from the question to the solution. -/
def solvable (c : Case) (id : String) : Bool := (c.prospects.lookup id).getD false

/-- The questions that no path of unlocks leads from to the solution. -/
def unsolvable (c : Case) : List String :=
  let prospects := c.prospects
  c.ids.filter fun id => !(prospects.lookup id).getD false

/-- The unlocks of questions that the case does not have. -/
def unknownUnlocks (c : Case) : List Diagnostic :=
  c.questions.flatMap fun q =>
    (q.targets.filter (· ∉ c.ids)).map (.unknownUnlock c.caseId q.id ·)

/-- A walk starts from the open questions and then from the others, which only a
circle can hide. -/
def walkOrder (c : Case) : List String := c.roots.map Question.id ++ c.ids

/-- The circles that the walk finds. -/
def cycles (c : Case) : List (List String) := c.graph.cyclesFrom c.walkOrder

/-- Every problem of the case. -/
def problems (c : Case) : List Diagnostic :=
  c.unknownUnlocks ++
    match c.cycles with
    | [] => c.unsolvable.map (.solutionUnreachable c.caseId ·)
    | cycles => cycles.map (.cyclicUnlock c.caseId ·)

end BranchingStory.Case
