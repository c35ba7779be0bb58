import BranchingStory.Check.Case
import BranchingStory.Check.Chapter
import BranchingStory.Numbering
import BranchingStory.Report

/-!
# Checking a story

A story is checked as a whole, once all of its records are compiled.  The chapters
come first and then the cases, each in the order of their numbers.  The chapter
of the highest number is the last one.
-/

namespace BranchingStory

/-- The number of the last chapter.  It is zero in a story without chapters. -/
def lastNumber (chapters : List Chapter) : Nat := (chapters.map Chapter.number).max?.getD 0

/-- Every problem of the chapters and the cases. -/
def storyProblems (chapters : List Chapter) (cases : List Case) : Report :=
  ((sortByNumber Chapter.number chapters).flatMap
      (Chapter.problems (chapters.map Chapter.number) (lastNumber chapters)))
    ++ (sortByNumber Case.number cases).flatMap Case.problems

end BranchingStory
