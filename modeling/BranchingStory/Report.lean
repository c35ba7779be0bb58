import BranchingStory.Diagnostic

/-!
# Reports

A report is the list of the problems of one run, in the order they were found.
It decides the exit code: content may be published exactly when no problem is
an error.
-/

namespace BranchingStory

/-- The problems of one run. -/
abbrev Report := List Diagnostic

namespace Report

/-- The problems that keep the content from being published. -/
def errors (r : Report) : List Diagnostic := r.filter (·.isError)

/-- The problems that do not. -/
def warnings (r : Report) : List Diagnostic := r.filter (!·.isError)

/-- Some problem is an error. -/
def hasErrors (r : Report) : Bool := r.any (·.isError)

/-- One if some problem is an error, zero otherwise. -/
def exitCode (r : Report) : Nat := if r.hasErrors then 1 else 0

/-- The report in words: warnings, then errors, then their numbers. -/
def summary (r : Report) : String :=
  (if r.isEmpty then "All checks passed!\n" else "")
    ++ String.join (r.warnings.map fun d => "WARNING: " ++ d.message ++ "\n")
    ++ String.join (r.errors.map fun d => "ERROR: " ++ d.message ++ "\n")
    ++ "\nSummary: " ++ r.errors.length.repr ++ " errors, " ++ r.warnings.length.repr
    ++ " warnings\n"

/-- The exit code is zero exactly when there is no error. -/
theorem exitCode_eq_zero_iff {r : Report} : r.exitCode = 0 ↔ r.errors = [] := by
  simp [exitCode, hasErrors, errors]

theorem exitCode_eq_one_iff {r : Report} : r.exitCode = 1 ↔ r.errors ≠ [] := by
  simp [exitCode, hasErrors, errors]

theorem errors_append (r s : Report) : errors (r ++ s) = r.errors ++ s.errors :=
  List.filter_append ..

/-- A report put together from parts is free of errors exactly when each part is. -/
theorem errors_flatMap_eq_nil_iff {α : Type} {l : List α} {f : α → Report} :
    errors (l.flatMap f) = [] ↔ ∀ a ∈ l, (f a).errors = [] := by
  simp only [errors, List.filter_eq_nil_iff, List.mem_flatMap]
  constructor
  · intro h a ha d hd
    exact h d ⟨a, ha, hd⟩
  · rintro h d ⟨a, ha, hd⟩
    exact h a ha d hd

end Report

example : Report.summary [] = "All checks passed!\n\nSummary: 0 errors, 0 warnings\n" := by decide

end BranchingStory
