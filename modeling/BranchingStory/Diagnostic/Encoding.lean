import BranchingStory.Json.Value
import BranchingStory.Report

/-!
# Diagnostics in JSON

A diagnostic is written as one record: the kind of the problem and then what it is
about.
-/

namespace BranchingStory

/-- The origin by its variant. -/
def Origin.toJson : Origin → Json
  | chapter number node =>
      .object [("chapter", .object [("number", .nat number),
        ("node", Json.ofOption .string node)])]
  | case number question =>
      .object [("case", .object [("number", .nat number),
        ("question", Json.ofOption .string question)])]
  | file path => .object [("file", .object [("path", .string path)])]

/-- A record of a kind of problem. -/
def Diagnostic.recordOf (kind : String) (fields : List (String × Json)) : Json :=
  .object (("kind", .string kind) :: fields)

/-- The diagnostic field by field. -/
def Diagnostic.toJson : Diagnostic → Json
  | malformed origin field reason =>
      recordOf "malformed_content"
        [("record", origin.toJson), ("field", .string field), ("reason", .string reason)]
  | brokenLink chapter node target =>
      recordOf "broken_link"
        [("chapter", .nat chapter), ("node_id", .string node), ("target", .string target)]
  | unreachableNode chapter node =>
      recordOf "unreachable_node" [("chapter", .nat chapter), ("node_id", .string node)]
  | missingEntry chapter entry =>
      recordOf "missing_entry_node" [("chapter", .nat chapter), ("entry", .string entry)]
  | missingConvergence chapter kind found =>
      recordOf "missing_convergence"
        [("chapter", .nat chapter), ("node_kind", .string kind.name), ("found", .nat found)]
  | noConvergencePath chapter source target =>
      recordOf "no_convergence_path"
        [("chapter", .nat chapter), ("from", .string source), ("to", .string target)]
  | endMismatch chapter node expected =>
      recordOf "chapter_end_mismatch"
        [("chapter", .nat chapter), ("node_id", .string node), ("expected", .string expected)]
  | cyclicUnlock caseId cycle =>
      recordOf "cyclic_unlock" [("case_id", .string caseId), ("cycle", Json.ofList .string cycle)]
  | unknownUnlock caseId question target =>
      recordOf "unknown_unlock"
        [("case_id", .string caseId), ("question_id", .string question), ("target", .string target)]
  | solutionUnreachable caseId question =>
      recordOf "solution_unreachable"
        [("case_id", .string caseId), ("question_id", .string question)]
  | missingTranslation surface language key =>
      recordOf "missing_translation_key"
        [("surface", .string surface), ("language", .string language), ("key", .string key)]

/-- The report with its diagnostics. -/
def Report.toJson (r : Report) : Json :=
  .object [("diagnostics", Json.ofList Diagnostic.toJson r)]

end BranchingStory
