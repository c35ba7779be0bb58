/-!
# Loops

A loop takes one step after another until there is none left to take.  Its definition does not
settle whether it ends: a loop that goes on forever has no last state.  That some loop ends is
a theorem about its steps.
-/

namespace BranchingStory

/-- A loop, given by its step from a state to the next one, if there is one. -/
abbrev Loop (σ : Type) := σ → Option σ

/-- The last state of a loop, if it ends. -/
def Loop.run {σ : Type} (step : Loop σ) (s : σ) : Option σ :=
  match step s with
  | none => some s
  | some t => step |>.run t
partial_fixpoint

example : Loop.run (fun n => if n = 0 then none else some (n - 1)) 3 = some 0 := by cbv

end BranchingStory
