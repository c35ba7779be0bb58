/-!
# Results

Some steps run for every record, and each either gives a value or fails.  The values
and the errors are kept apart, both in the order of the records.
-/

namespace BranchingStory

variable {ε α : Type}

/-- The values among some results. -/
def successes (results : List (Except ε α)) : List α := results.filterMap Except.toOption

/-- The error of a result. -/
def errorOf? : Except ε α → Option ε
  | .ok _ => none
  | .error e => some e

/-- The errors among some results. -/
def failures (results : List (Except ε α)) : List ε := results.filterMap errorOf?

theorem successes_cons_ok (a : α) (rest : List (Except ε α)) :
    successes (.ok a :: rest) = a :: successes rest := rfl

theorem successes_cons_error (e : ε) (rest : List (Except ε α)) :
    successes (.error e :: rest) = successes rest := rfl

theorem failures_cons_ok (a : α) (rest : List (Except ε α)) :
    failures (.ok a :: rest) = failures rest := rfl

theorem failures_cons_error (e : ε) (rest : List (Except ε α)) :
    failures (.error e :: rest) = e :: failures rest := rfl

theorem successes_append (results rest : List (Except ε α)) :
    successes (results ++ rest) = successes results ++ successes rest := List.filterMap_append

theorem failures_append (results rest : List (Except ε α)) :
    failures (results ++ rest) = failures results ++ failures rest := List.filterMap_append

/-- Results without an error are their values. -/
theorem successes_map_ok (as : List α) : successes (as.map (.ok : α → Except ε α)) = as := by
  rw [successes, List.filterMap_map]
  exact List.filterMap_some

theorem failures_map_ok (as : List α) : failures (as.map (.ok : α → Except ε α)) = [] := by
  rw [failures, List.filterMap_map]
  exact List.filterMap_eq_nil_iff.mpr fun _ _ => rfl

/-- The values are those that some result holds. -/
theorem mem_successes {results : List (Except ε α)} {a : α} :
    a ∈ successes results ↔ .ok a ∈ results := by
  rw [successes, List.mem_filterMap]
  constructor
  · rintro ⟨r, hr, ha⟩
    cases r with
    | ok b =>
        obtain rfl : b = a := by simpa [Except.toOption] using ha
        exact hr
    | error e => simp [Except.toOption] at ha
  · intro h
    exact ⟨.ok a, h, rfl⟩

/-- The errors are those that some result holds. -/
theorem mem_failures {results : List (Except ε α)} {e : ε} :
    e ∈ failures results ↔ .error e ∈ results := by
  rw [failures, List.mem_filterMap]
  constructor
  · rintro ⟨r, hr, he⟩
    cases r with
    | ok a => simp [errorOf?] at he
    | error f =>
        obtain rfl : f = e := by simpa [errorOf?] using he
        exact hr
  · intro h
    exact ⟨.error e, h, rfl⟩

/-- Without an error every result is a value. -/
theorem map_ok_successes {results : List (Except ε α)} (h : failures results = []) :
    (successes results).map .ok = results := by
  induction results with
  | nil => rfl
  | cons r rest ih =>
      cases r with
      | ok a => rw [successes_cons_ok, List.map_cons, ih h]
      | error e => simp [failures_cons_error] at h

/-- A step that runs for every element gives its values exactly if no run fails. -/
theorem mapM_eq_ok_iff {β : Type} {f : β → Except ε α} {l : List β} {as : List α} :
    l.mapM f = .ok as ↔ l.map f = as.map .ok := by
  induction l generalizing as with
  | nil =>
      cases as with
      | nil => exact iff_of_true rfl rfl
      | cons a rest => exact iff_of_false (by simp [pure, Except.pure]) (by simp)
  | cons b rest ih =>
      rw [List.mapM_cons, List.map_cons]
      cases hb : f b with
      | error e => cases as <;> simp [bind, Except.bind]
      | ok a =>
          cases as with
          | nil => cases hrest : rest.mapM f <;> simp [bind, Except.bind, pure, Except.pure]
          | cons a' as =>
              rw [List.map_cons, List.cons.injEq, ← ih]
              cases hrest : rest.mapM f <;>
                simp [bind, Except.bind, pure, Except.pure]

/-- A step that runs for every element fails as the first run that fails. -/
theorem exists_of_mapM_eq_error {β : Type} {f : β → Except ε α} {l : List β} {e : ε}
    (h : l.mapM f = .error e) : ∃ before b after, l = before ++ b :: after ∧
      (∀ b' ∈ before, ∃ a, f b' = .ok a) ∧ f b = .error e := by
  induction l with
  | nil => cases h
  | cons b rest ih =>
      rw [List.mapM_cons] at h
      cases hb : f b with
      | error e' =>
          have he : Except.error e' = (Except.error e : Except ε (List α)) := by rwa [hb] at h
          obtain rfl := Except.error.inj he
          exact ⟨[], b, rest, rfl, by simp, hb⟩
      | ok a =>
          have hrest : rest.mapM f = .error e := by
            rw [hb] at h
            cases hrest : rest.mapM f <;> simp_all [bind, Except.bind, pure, Except.pure]
          obtain ⟨before, b', after, rfl, hbefore, hb'⟩ := ih hrest
          exact ⟨b :: before, b', after, rfl, List.forall_mem_cons.mpr ⟨⟨a, hb⟩, hbefore⟩, hb'⟩

/-- A result that is not an error is a value. -/
theorem exists_eq_ok_of_isOk {r : Except ε α} (h : r.isOk = true) : ∃ a, r = .ok a := by
  cases r with
  | ok a => exact ⟨a, rfl⟩
  | error e => cases h

/-- A change of the values changes no error. -/
theorem successes_map_map {β : Type} (f : α → β) (results : List (Except ε α)) :
    successes (results.map (Except.map f)) = (successes results).map f := by
  induction results with
  | nil => rfl
  | cons r rest ih =>
      cases r with
      | ok a => exact congrArg (f a :: ·) ih
      | error e => exact ih

theorem failures_map_map {β : Type} (f : α → β) (results : List (Except ε α)) :
    failures (results.map (Except.map f)) = failures results := by
  induction results with
  | nil => rfl
  | cons r rest ih =>
      cases r with
      | ok a => exact ih
      | error e => exact congrArg (e :: ·) ih

/-- A step that keeps a key keeps the keys of its values in order. -/
theorem map_successes_sublist {β κ : Type} {f : β → Except ε α} {key : α → κ} {key' : β → κ}
    (hkey : ∀ b a, f b = .ok a → key a = key' b) (l : List β) :
    ((successes (l.map f)).map key).Sublist (l.map key') := by
  induction l with
  | nil => exact .slnil
  | cons b rest ih =>
      cases h : f b with
      | ok a =>
          simp only [successes, List.map_cons, h, List.filterMap_cons, Except.toOption] at ih ⊢
          rw [hkey b a h]
          exact ih.cons_cons _
      | error e =>
          simp only [successes, List.map_cons, h, List.filterMap_cons, Except.toOption] at ih ⊢
          exact ih.cons _

end BranchingStory
