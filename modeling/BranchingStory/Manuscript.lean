import BranchingStory.Draft
import BranchingStory.Report

/-!
# Manuscripts

A manuscript is everything that one build starts from: the drafts that could be
read, in any order, and a diagnostic for every file that could not.
-/

namespace BranchingStory

/-- The authored records of one build. -/
structure Manuscript where
  chapters : List ChapterDraft := []
  cases : List CaseDraft := []
  /-- The problems of the files that are not records. -/
  rejected : Report := []
deriving DecidableEq, Repr

end BranchingStory
