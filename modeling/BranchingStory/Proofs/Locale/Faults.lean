import BranchingStory.Proofs.Locale.Registry

/-!
# Why languages make no registry

Every error of a registry has a reason in its languages (`Registry.refused_of_build`).  A repeated
code stands twice among the codes, and an unknown parent is the parent of the language that the
error names.  A fallback cycle is named by the language whose climb came upon it, which is the
first in order whose parents lead into a circle.  That language need not lie on the circle, since
a language that only leads into it may come first (`not_namesCulprit_cornish`).
-/

namespace BranchingStory

open Relation (TransGen)

variable {reference code : String} {languages : List Language} {l : Language} {e : RegistryError}

namespace Registry

/-- Why languages make no registry. -/
inductive Refused (reference : String) (languages : List Language) : RegistryError → Prop where
  | repeated {code : String} : 2 ≤ (languages.map Language.code).count code →
      Refused reference languages (.duplicateCode code)
  | absent : reference ∉ languages.map Language.code →
      Refused reference languages (.missingReference reference)
  | grafted {parent : String} : FallsBack languages reference parent →
      Refused reference languages (.referenceHasParent reference)
  /-- The climb from `l` fails, and those from all languages before it succeed. -/
  | fault {l : Language} {e : RegistryError} : (languages.map Language.code).Nodup →
      (∀ l' ∈ languages, l'.code < l.code → ∃ c, climb (tableOf languages) l' = .ok c) →
      Fault languages l.code e → Refused reference languages e

/-- Every error has a reason. -/
theorem refused_of_build (h : build reference languages = .error e) :
    Refused reference languages e := by
  rcases build_cases reference languages with ⟨code, hrepeat, hbuild⟩ |
    ⟨_, habsent, hbuild⟩ | ⟨_, ⟨parent, hfalls⟩, hbuild⟩ | ⟨hcodes, _, hbuild⟩ <;> rw [hbuild] at h
  · obtain rfl := Except.error.inj h
    exact .repeated (two_le_count_of_firstRepeat? hrepeat)
  · obtain rfl := Except.error.inj h
    exact .absent habsent
  · obtain rfl := Except.error.inj h
    exact .grafted hfalls
  · cases hentries : (tableOf languages).values.mapM (entryOf (tableOf languages) reference) with
    | ok entries => rw [hentries] at h; cases h
    | error e' =>
        rw [hentries] at h
        obtain rfl := Except.error.inj h
        obtain ⟨_, _, hbefore, hfault⟩ := exists_fault_of_entries hcodes hentries
        exact .fault hcodes hbefore hfault

/-- If all climbs from languages before `l` succeed, no language before `l` leads into a circle. -/
theorem le_of_endless (hcodes : (languages.map Language.code).Nodup)
    (hbefore : ∀ l' ∈ languages, l'.code < l.code → ∃ c, climb (tableOf languages) l' = .ok c)
    (hendless : Endless languages code) : l.code ≤ code := by
  by_contra hlt
  obtain ⟨_, ⟨l', hl', rfl, _⟩, _⟩ := hendless.exists_parent
  obtain ⟨c, hclimb⟩ := hbefore l' hl' (not_le.mp hlt)
  exact (lineage_of_climb hcodes hl' hclimb).1.not_endless hcodes hl' hendless

end Registry

/-! ## What errors name -/

/-- What an error names is at fault: the code is repeated, is missing, has a parent that is not
registered, or lies on a circle. -/
def NamesCulprit (reference : String) (languages : List Language) : RegistryError → Prop
  | .duplicateCode code => 2 ≤ (languages.map Language.code).count code
  | .missingReference code => code = reference ∧ code ∉ languages.map Language.code
  | .referenceHasParent code => code = reference ∧ ∃ parent, FallsBack languages code parent
  | .unknownParent code parent =>
      FallsBack languages code parent ∧ parent ∉ languages.map Language.code
  | .fallbackCycle code => TransGen (FallsBack languages) code code
  | .unreadable | .malformed | .referenceMismatch .. => False

/-- No language that leads into a circle comes before all that lie on one. -/
def CirclesComeFirst (languages : List Language) : Prop :=
  ∀ code, Endless languages code → ∃ c, TransGen (FallsBack languages) c c ∧ c ≤ code

/-- Every error names a culprit, but for fallback cycles.  These are named by the first language
that leads into a circle, which lies on a circle exactly if no language that leads into a circle
comes before all that lie on one. -/
theorem namesCulprit_iff (h : Registry.build reference languages = .error e) :
    (NamesCulprit reference languages e ↔
      ((∃ code, e = .fallbackCycle code) → CirclesComeFirst languages)) ∧
    ∀ code, e = .fallbackCycle code →
      Endless languages code ∧ ∀ c, Endless languages c → code ≤ c := by
  cases Registry.refused_of_build h with
  | repeated hcount => exact ⟨iff_of_true hcount (by simp), by simp⟩
  | absent hmem => exact ⟨iff_of_true ⟨rfl, hmem⟩ (by simp), by simp⟩
  | grafted hfalls => exact ⟨iff_of_true ⟨rfl, _, hfalls⟩ (by simp), by simp⟩
  | fault hcodes hbefore hfault =>
      cases hfault with
      | unknown _ hfalls hunknown => exact ⟨iff_of_true ⟨hfalls, hunknown⟩ (by simp), by simp⟩
      | circle hendless =>
          have hfirst : ∀ c, Endless languages c → _ ≤ c := fun _ =>
            Registry.le_of_endless hcodes hbefore
          refine ⟨?_, fun code hcode => ?_⟩
          · constructor
            · intro hcircle _ code hcode
              exact ⟨_, hcircle, hfirst code hcode⟩
            · intro hcomes
              obtain ⟨c, hcircle, hle⟩ := hcomes ⟨_, rfl⟩ _ hendless
              obtain rfl := le_antisymm hle (hfirst c (.of_circle hcircle))
              exact hcircle
          · obtain rfl := RegistryError.fallbackCycle.inj hcode
            exact ⟨hendless, hfirst⟩

/-- Cornish and Welsh fall back to each other, and a variant of Welsh to Welsh. -/
def brythonicLanguages : List Language :=
  [{ code := "english", displayName := "English" },
    { code := "welsh_patagonia", displayName := "Cymraeg y Wladfa", parent := some "welsh" },
    { code := "welsh", displayName := "Cymraeg", parent := some "cornish" },
    { code := "cornish", displayName := "Kernewek", parent := some "welsh" }]

/-- The circle is reported by Cornish, which lies on it. -/
theorem namesCulprit_iff_brythonic :
    Registry.build "english" brythonicLanguages = .error (.fallbackCycle "cornish") ∧
      CirclesComeFirst brythonicLanguages ∧
      NamesCulprit "english" brythonicLanguages (.fallbackCycle "cornish") := by
  have hbuild : Registry.build "english" brythonicLanguages =
      .error (.fallbackCycle "cornish") := by cbv
  obtain ⟨hiff, hnamed⟩ := namesCulprit_iff hbuild
  have hcircle : TransGen (FallsBack brythonicLanguages) "cornish" "cornish" :=
    .tail (.single ⟨_, .tail _ (.tail _ (.tail _ (.head _))), rfl, rfl⟩)
      ⟨_, .tail _ (.tail _ (.head _)), rfl, rfl⟩
  have hcomes : CirclesComeFirst brythonicLanguages := fun code hcode =>
    ⟨_, hcircle, (hnamed _ rfl).2 code hcode⟩
  exact ⟨hbuild, hcomes, hiff.mpr fun _ => hcomes⟩

/-- Welsh falls back to itself, and Cornish to Welsh. -/
def celticLanguages : List Language :=
  [{ code := "english", displayName := "English" },
    { code := "cornish", displayName := "Kernewek", parent := some "welsh" },
    { code := "welsh", displayName := "Cymraeg", parent := some "welsh" }]

/-- The circle at Welsh is reported by Cornish, which does not lie on it. -/
theorem not_namesCulprit_cornish :
    Registry.build "english" celticLanguages = .error (.fallbackCycle "cornish") ∧
      ¬ NamesCulprit "english" celticLanguages (.fallbackCycle "cornish") := by
  refine ⟨by cbv, fun hcircle => ?_⟩
  obtain ⟨_, _, l, hl, _, hparent⟩ := TransGen.tail'_iff.mp hcircle
  -- No language falls back to Cornish.
  have hnone : ∀ l ∈ celticLanguages, l.parent ≠ some "cornish" := by decide
  exact hnone l hl hparent

end BranchingStory
