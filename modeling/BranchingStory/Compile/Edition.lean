import BranchingStory.Diagnostic
import BranchingStory.Draft

/-!
# Editions

An edition fixes what one record cannot know about the whole story: the language
that every text must have, and the chapter that the story ends with.
-/

namespace BranchingStory

/-- What a compilation assumes about the whole story. -/
structure Edition where
  /-- The language that every text must have. -/
  reference : String
  /-- The chapter whose end is the end of the story, if it is fixed. -/
  lastChapter : Option Nat := none
deriving DecidableEq, Repr

namespace Edition

/-- The complaint that a text lacks the reference language. -/
def missingText (e : Edition) (origin : Origin) (field : String) : Diagnostic :=
  .malformed origin field ("missing '" ++ e.reference ++ "' text")

/-- A text without the reference language is a problem. -/
def textProblems (e : Edition) (origin : Origin) (field : String) (text : Translations) :
    List Diagnostic :=
  if text.contains e.reference then [] else [e.missingText origin field]

/-- Where the end of a chapter leads by default: out of the story from the last
chapter on, and to the next chapter before it.  With no last chapter fixed, any
chapter may be the last. -/
def linkAfter (e : Edition) (chapter : Nat) : Link :=
  match e.lastChapter with
  | none => .ending
  | some last => if last ≤ chapter then .ending else .chapter (chapter + 1)

variable {e : Edition} {origin : Origin} {field : String} {text : Translations}

theorem textProblems_eq_nil_iff :
    e.textProblems origin field text = [] ↔ text.contains e.reference = true := by
  simp [textProblems]

theorem mem_textProblems_iff {d : Diagnostic} : d ∈ e.textProblems origin field text ↔
    text.contains e.reference = false ∧ d = e.missingText origin field := by
  cases h : text.contains e.reference <;> simp [textProblems, h]

end Edition

end BranchingStory
