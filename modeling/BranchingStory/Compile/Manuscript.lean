import BranchingStory.Compile.Case
import BranchingStory.Compile.Chapter
import BranchingStory.Manuscript
import BranchingStory.Numbering
import BranchingStory.Report
import BranchingStory.Results

/-!
# Compiling a manuscript

The records of a manuscript compile on their own, in the order of their numbers.
Of the records that share a number the first is compiled and each other one is
reported.  A record with problems is left out and its problems are reported, so
the report explains every record that is missing from the result.

The report lists the unreadable files first, then the repeated numbers of the
chapters and of the cases, then the problems of the chapters and of the cases.
-/

namespace BranchingStory

/-- What one manuscript compiles to. -/
structure Compilation where
  chapters : List Chapter
  cases : List Case
  report : Report
deriving DecidableEq, Repr

namespace Manuscript

/-- The chapters to compile: the first of each number, by number. -/
def keptChapters (m : Manuscript) : List ChapterDraft :=
  sortByNumber ChapterDraft.number (firstPerKey ChapterDraft.number m.chapters)

/-- The cases to compile: the first of each number, by number. -/
def keptCases (m : Manuscript) : List CaseDraft :=
  sortByNumber CaseDraft.number (firstPerKey CaseDraft.number m.cases)

/-- One problem for every chapter and every case whose number is taken. -/
def repeatedNumbers (m : Manuscript) : List Diagnostic :=
  ((sortByNumber id (repeatedKeys ChapterDraft.number m.chapters)).map fun n =>
      .malformed (.chapter n none) "number" "duplicate chapter number")
    ++ (sortByNumber id (repeatedKeys CaseDraft.number m.cases)).map fun n =>
      .malformed (.case n none) "number" "duplicate case number"

/-- The edition with its last chapter fixed: the highest number of the manuscript
if the edition leaves it open. -/
def editionOf (e : Edition) (m : Manuscript) : Edition :=
  { e with lastChapter := e.lastChapter.or (m.chapters.map ChapterDraft.number).max? }

/-- The result for each chapter to compile. -/
def chapterResults (e : Edition) (m : Manuscript) : List (Except (List Diagnostic) Chapter) :=
  m.keptChapters.map (ChapterDraft.compile (editionOf e m))

/-- The result for each case to compile. -/
def caseResults (e : Edition) (m : Manuscript) : List (Except (List Diagnostic) Case) :=
  m.keptCases.map (CaseDraft.compile (editionOf e m))

/-- The compiled records and the problems of the others. -/
def compile (e : Edition) (m : Manuscript) : Compilation :=
  { chapters := successes (m.chapterResults e)
    cases := successes (m.caseResults e)
    report := m.rejected ++ m.repeatedNumbers ++ (failures (m.chapterResults e)).flatten
      ++ (failures (m.caseResults e)).flatten }

end Manuscript

end BranchingStory
