import Mathlib.Logic.Relation
import Mathlib.Order.WellFounded
import BranchingStory.Loop

/-!
# Loops that end

`Loop.EndsIn` says that a loop ends, and in which state: some number of steps lead there, and no
step leads on.  `Loop.run_eq_some_iff` ties it to the function that runs the loop.  What each step
preserves holds in every state of a run (`Loop.Runs.preserves`), and a loop ends if its steps
descend in some well-founded order (`Loop.exists_endsIn`), be it only while something is true that
they preserve (`Loop.exists_endsIn_of_preserves`).
-/

namespace BranchingStory.Loop

variable {σ : Type} {step : Loop σ} {s t u : σ}

/-- Some number of steps lead from `s` to `t`. -/
def Runs (step : Loop σ) (s t : σ) : Prop :=
  Relation.ReflTransGen (fun s t => step s = some t) s t

/-- The loop that starts in `s` ends in `t`. -/
structure EndsIn (step : Loop σ) (s t : σ) : Prop where
  runs : Runs step s t
  last : step t = none

theorem Runs.refl (s : σ) : Runs step s s := Relation.ReflTransGen.refl

theorem Runs.single (h : step s = some t) : Runs step s t := Relation.ReflTransGen.single h

theorem Runs.trans (h : Runs step s t) (h' : Runs step t u) : Runs step s u :=
  Relation.ReflTransGen.trans h h'

/-- What every step preserves is true after any number of steps. -/
theorem Runs.preserves {P : σ → Prop} (h : Runs step s t)
    (hstep : ∀ s t, P s → step s = some t → P t) (hs : P s) : P t := by
  induction h with
  | refl => exact hs
  | tail _ hlast ih => exact hstep _ _ ih hlast

/-- A loop that goes on for one more step ends where it ended before. -/
theorem EndsIn.of_step (h : step s = some t) (hend : EndsIn step t u) : EndsIn step s u :=
  ⟨(Runs.single h).trans hend.runs, hend.last⟩

/-- The state that a loop runs to is the one it ends in. -/
theorem run_eq_some_iff : run step s = some t ↔ EndsIn step s t := by
  constructor
  · refine run.partial_correctness step (EndsIn step) (fun run ih s t h => ?_) s t
    cases hstep : step s with
    | none =>
        obtain rfl : s = t := by simpa [hstep] using h
        exact ⟨.refl s, hstep⟩
    | some u => exact .of_step hstep (ih u t (by simpa [hstep] using h))
  · rintro ⟨hruns, hlast⟩
    induction hruns using Relation.ReflTransGen.head_induction_on with
    | refl => rw [run, hlast]
    | head hstep _ ih =>
        rw [run, hstep]
        exact ih

/-- A loop ends if its steps preserve some property and, where it is true, descend in a well-founded
order. -/
theorem exists_endsIn_of_preserves {β : Type} {r : β → β → Prop} (hr : WellFounded r)
    (measure : σ → β) {P : σ → Prop}
    (hstep : ∀ s t, P s → step s = some t → P t ∧ r (measure t) (measure s)) (hs : P s) :
    ∃ t, EndsIn step s t := by
  induction s using (InvImage.wf measure hr).induction with
  | h s ih =>
      cases h : step s with
      | none => exact ⟨s, .refl s, h⟩
      | some t =>
          obtain ⟨ht, hlt⟩ := hstep s t hs h
          obtain ⟨u, hend⟩ := ih t hlt ht
          exact ⟨u, .of_step h hend⟩

/-- A loop ends if every step descends in a well-founded order. -/
theorem exists_endsIn {β : Type} {r : β → β → Prop} (hr : WellFounded r) (measure : σ → β)
    (hstep : ∀ s t, step s = some t → r (measure t) (measure s)) (s : σ) :
    ∃ t, EndsIn step s t :=
  exists_endsIn_of_preserves hr measure (P := fun _ => True)
    (fun s t _ h => ⟨trivial, hstep s t h⟩) trivial

end BranchingStory.Loop
