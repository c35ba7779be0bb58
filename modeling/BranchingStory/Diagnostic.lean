import BranchingStory.Story.Node

/-!
# Diagnostics

A diagnostic is one problem of the content.  Problems are collected and never
raised, so one run shows an author all of them.  Each constructor is a cause,
and `Diagnostic.message` is the only place that words it.

Dead content and gaps in a translation are warnings.  Everything else is an
error and keeps the content from being published.
-/

namespace BranchingStory

/-- The authored record that a problem belongs to. -/
inductive Origin where
  /-- A chapter, or one of its nodes. -/
  | chapter (number : Nat) (node : Option String)
  /-- A case, or one of its questions. -/
  | case (number : Nat) (question : Option String)
  /-- A source file that could not be read as a record. -/
  | file (path : String)
deriving DecidableEq, Repr

/-- How an origin is shown. -/
def Origin.render : Origin → String
  | .chapter number none => "chapter " ++ number.repr
  | .chapter number (some node) => "chapter " ++ number.repr ++ ", node " ++ node
  | .case number none => "case " ++ number.repr
  | .case number (some question) => "case " ++ number.repr ++ ", question " ++ question
  | .file path => path

/-- How much a problem matters. -/
inductive Severity where
  | warning
  | error
deriving DecidableEq, Repr

/-- One problem of the content. -/
inductive Diagnostic where
  /-- A field of an authored record is missing, unknown or out of place. -/
  | malformed (origin : Origin) (field reason : String)
  /-- A link leads nowhere. -/
  | brokenLink (chapter : Nat) (node target : String)
  /-- No path leads from the entry to the node. -/
  | unreachableNode (chapter : Nat) (node : String)
  /-- The chapter has no entry node. -/
  | missingEntry (chapter : Nat) (entry : String)
  /-- The chapter has not exactly one node of a kind it needs once. -/
  | missingConvergence (chapter : Nat) (kind : NodeKind) (found : Nat)
  /-- A track misses the investigation, or the investigation the end. -/
  | noConvergencePath (chapter : Nat) (source target : String)
  /-- The end of the chapter leads to the wrong place. -/
  | endMismatch (chapter : Nat) (node expected : String)
  /-- Questions unlock each other in a circle. -/
  | cyclicUnlock (caseId : String) (cycle : List String)
  /-- A question unlocks one that the case does not have. -/
  | unknownUnlock (caseId question target : String)
  /-- No path leads from the question to the solution. -/
  | solutionUnreachable (caseId question : String)
  /-- A language has no text for a key. -/
  | missingTranslation (surface language key : String)
deriving DecidableEq, Repr

namespace Diagnostic

/-- Unreachable nodes and missing translations are warnings. -/
def severity : Diagnostic → Severity
  | unreachableNode .. => .warning
  | missingTranslation .. => .warning
  | _ => .error

/-- The problem keeps the content from being published. -/
def isError (d : Diagnostic) : Bool := d.severity == .error

/-- The problem in words. -/
def message : Diagnostic → String
  | malformed origin field reason => origin.render ++ ": field '" ++ field ++ "' " ++ reason
  | brokenLink chapter node target =>
      "Chapter " ++ chapter.repr ++ ", " ++ node ++ " -> " ++ target ++ " (no such node)"
  | unreachableNode chapter node =>
      "Chapter " ++ chapter.repr ++ ", " ++ node ++ " is unreachable from the entry node"
  | missingEntry chapter entry =>
      "Chapter " ++ chapter.repr ++ ": missing entry node " ++ entry
  | missingConvergence chapter kind found =>
      "Chapter " ++ chapter.repr ++ ": expected exactly one '" ++ kind.name ++ "' node, found "
        ++ found.repr
  | noConvergencePath chapter source target =>
      "Chapter " ++ chapter.repr ++ ": no path from " ++ source ++ " to " ++ target
  | endMismatch chapter node expected =>
      "Chapter " ++ chapter.repr ++ ", " ++ node ++ " must lead to " ++ expected
  | cyclicUnlock caseId cycle => caseId ++ ": cyclic unlock " ++ " -> ".intercalate cycle
  | unknownUnlock caseId question target =>
      caseId ++ ", " ++ question ++ " unlocks unknown question " ++ target
  | solutionUnreachable caseId question =>
      caseId ++ ", " ++ question ++ " never leads to SOLUTION"
  | missingTranslation surface language key =>
      surface ++ " [" ++ language ++ "]: missing key '" ++ key ++ "'"

end Diagnostic

example : (Diagnostic.brokenLink 2 "CH2_004" "CH2_999").message
    = "Chapter 2, CH2_004 -> CH2_999 (no such node)" := by decide
example : (Diagnostic.cyclicUnlock "CASE_004" ["Q001", "Q002", "Q001"]).message
    = "CASE_004: cyclic unlock Q001 -> Q002 -> Q001" := by decide
example : (Diagnostic.unreachableNode 1 "A").isError = false := by decide

end BranchingStory
