import BranchingStory.Graph.Basic
import BranchingStory.Loop

/-!
# Surveys

A survey of a graph tells from which vertices some path leads to a goal.  The answer for a
vertex follows from those for the ends of its edges.  As long as one of these has no answer
yet, the vertex waits on a stack below all that it waits for.

On a cycle each vertex waits for the next, and a survey that comes to one never ends.
-/

namespace BranchingStory.Graph

variable {α : Type} [DecidableEq α]

/-- The state of a survey. -/
structure Survey (α : Type) where
  /-- The vertices that the survey has yet to start from. -/
  starts : List α
  /-- The vertices that wait for an answer, the current one first. -/
  stack : List α := []
  /-- The answers, the latest first. -/
  answers : List (α × Bool) := []
deriving DecidableEq, Repr

/-- The ends of the edges of a vertex that have no answer yet. -/
def pending (g : Graph α) (answers : List (α × Bool)) (a : α) : List α :=
  (g.ends a).filter (answers.lookup · = none)

/-- The answer for a vertex, if none of these is pending. -/
def answerFrom (g : Graph α) (goal : α → Bool) (answers : List (α × Bool)) (a : α) : Bool :=
  goal a || (g.ends a).any (answers.lookup · = some true)

/-- The next step of a survey, which ends when no vertex waits and no start is left. -/
def surveyStep (g : Graph α) (goal : α → Bool) (s : Survey α) : Option (Survey α) :=
  match s.stack with
  | [] =>
      match s.starts with
      | [] => none
      | a :: rest => some { s with starts := rest, stack := [a] }
  | a :: rest =>
      if (s.answers.lookup a).isSome then some { s with stack := rest }
      else
        match g.pending s.answers a with
        | [] =>
            let answer := g.answerFrom goal s.answers a
            some { s with stack := rest, answers := (a, answer) :: s.answers }
        | pending => some { s with stack := pending.reverse ++ a :: rest }

/-- The answers for the starts and for all that they lead to, once the survey has ended. -/
def survey (g : Graph α) (goal : α → Bool) (starts : List α) : List (α × Bool) :=
  ((Loop.run (g.surveyStep goal) { starts := starts }).map Survey.answers).getD []

/-- Two edges lead to the goal `C`, and none leads away from it. -/
example : Graph.survey ⟨["A", "B", "C", "D"], fun a =>
    if a = "A" then ["C", "B"] else if a = "B" then ["C"] else if a = "C" then ["D"] else []⟩
    (· = "C") ["A"] = [("A", true), ("B", true), ("C", true), ("D", false)] := by cbv

end BranchingStory.Graph
