import BranchingStory.Proofs.Chapter.WellFormed
import BranchingStory.Proofs.Locale.Bundle
import BranchingStory.Proofs.Locale.Resolution
import BranchingStory.Proofs.Puzzle.Compiled
import BranchingStory.Proofs.Puzzle.Play
import BranchingStory.Proofs.Story.Compiled
import BranchingStory.Proofs.Story.DefaultLinks
import BranchingStory.Proofs.Translation.Slots

/-!
# Compiled texts in the reference language

The compiler asks every text of a draft for the reference language, and what it writes itself has
that language too: the option of a track falls back to the name of the perspective.  So every
text of a compiled record has the reference language (`ChapterDraft.contains_of_compile`,
`CaseDraft.contains_of_compile`).

The keys of a bundle are those of its texts (`Bundle.mem_entries_ofSlots_flatMap`).  A chain of a
registry ends with the reference language, so a lookup of a compiled text ends there at the latest
and never shows a key in place of a text (`resolve_of_compile`).
-/

namespace BranchingStory

/-- Every option of the link has the language. -/
def Link.Covered (language : String) (link : Link) : Prop :=
  ∀ o ∈ link.options, o.text.contains language = true

variable {e : Edition} {number : Nat}

/-! ## Nodes -/

namespace Layout

variable {l : Layout} {p : Placement}

/-- The option of a track has the reference language, by its label or by the perspective. -/
theorem contains_trackLabel (e : Edition) (t : TrackDraft) :
    (trackLabel e t).contains e.reference = true := by
  rw [trackLabel]
  split
  · assumption
  · simp

theorem covered_trackOptions (tracks : List (TrackDraft × Run)) :
    (Link.choice (trackOptions e tracks)).Covered e.reference := by
  intro o ho
  obtain ⟨t, _, hoption⟩ := List.mem_filterMap.mp ho
  obtain ⟨first, _, rfl⟩ := Option.map_eq_some_iff.mp hoption
  exact contains_trackLabel e t.1

/-- Every option that a layout adds has the reference language. -/
theorem covered_defaultLink (hp : p ∈ l.place e number) : p.defaultLink.Covered e.reference := by
  have hnode : ∀ id, (Link.node id).Covered e.reference := fun _ _ h => by simp [Link.options] at h
  rcases mem_place_iff.mp hp with hp | rfl | rfl
  · rcases defaultLink_of_mem_placeBefore hp with h | ⟨id, h⟩
    · rw [h, linkFromPrologue]
      split
      · exact covered_trackOptions l.tracks
      · obtain ⟨id, hid⟩ := linkInto_node l.investigation.1 (firstRun l.tracks)
        exact hid ▸ hnode id
    · exact h ▸ hnode id
  · exact hnode _
  · intro o ho
    rw [placeEnding, Edition.linkAfter] at ho
    split at ho
    · simp [Link.options] at ho
    · split at ho <;> simp [Link.options] at ho

end Layout

namespace Placement

variable {p : Placement} {n : Node}

theorem contains_text_of_problems_eq_nil (h : p.problems e number = []) :
    p.draft.text.contains e.reference = true := by
  simp only [problems, List.append_eq_nil_iff] at h
  exact Edition.textProblems_eq_nil_iff.mp h.1.2

/-- An author can write options at a choice alone, and the compiler looks at each. -/
theorem contains_option_of_problems_eq_nil (h : p.problems e number = []) {o : ChoiceDraft}
    (ho : o ∈ p.draft.options) : o.text.contains e.reference = true := by
  obtain ⟨kind, hkind, _⟩ := kind?_of_problems_eq_nil h
  simp only [problems, List.append_eq_nil_iff] at h
  obtain ⟨hchoice, hplain⟩ := (linkProblems_eq_nil_iff hkind).mp h.2
  have hoptions : p.draft.options ≠ [] := List.ne_nil_of_mem ho
  obtain ⟨_, ⟨_, hcontains⟩ | ⟨hnil, _⟩⟩ := hchoice (Decidable.not_imp_comm.mp hplain hoptions)
  · exact hcontains o ho
  · exact absurd hnil hoptions

theorem covered_link (h : p.problems e number = [])
    (hdefault : p.defaultLink.Covered e.reference) : p.link.Covered e.reference := by
  cases hoptions : p.draft.options with
  | nil =>
      cases hnext : p.draft.next with
      | none => exact link_eq_defaultLink hoptions hnext ▸ hdefault
      | some target =>
          intro o ho
          cases target <;> simp [link, hoptions, hnext, LinkDraft.toLink, Link.options] at ho
  | cons first rest =>
      intro o ho
      have hmem : o ∈ p.draft.options.map ChoiceDraft.toChoice := by
        simpa [link, hoptions, Link.options] using ho
      obtain ⟨draft, hdraft, rfl⟩ := List.mem_map.mp hmem
      exact contains_option_of_problems_eq_nil h hdraft

end Placement

/-! ## Records -/

/-- Every text of a compiled chapter has the reference language. -/
theorem ChapterDraft.contains_of_compile {c : ChapterDraft} {ch : Chapter}
    (h : c.compile e = .ok ch) {place : ChapterPlace} {text : Translations}
    (hplace : ch.Holds place text) : text.contains e.reference = true := by
  obtain ⟨l, _, houtline, hclean, _, rfl⟩ := compile_eq_ok_iff.mp h
  cases hplace with
  | title =>
      simp only [outlineProblems, List.append_eq_nil_iff] at houtline
      exact Edition.textProblems_eq_nil_iff.mp houtline.1.1.1.1
  | text hn =>
      obtain ⟨p, hp, hnode⟩ := mem_nodes_assemble_iff.mp hn
      obtain ⟨_, _, rfl⟩ := Placement.node?_eq_some_iff.mp hnode
      exact Placement.contains_text_of_problems_eq_nil (hclean p hp)
  | option hn ho =>
      obtain ⟨p, hp, hnode⟩ := mem_nodes_assemble_iff.mp hn
      rw [Placement.next_of_node? hnode] at ho
      exact Placement.covered_link (hclean p hp) (Layout.covered_defaultLink hp) _
        (List.mem_of_getElem? ho)

/-- Every text of a compiled case has the reference language. -/
theorem CaseDraft.contains_of_compile {d : CaseDraft} {c : Case} (h : d.compile e = .ok c)
    {place : CasePlace} {text : Translations} (hplace : c.Holds place text) :
    text.contains e.reference = true := by
  obtain ⟨hproblems, _, rfl⟩ := compile_eq_ok_iff.mp h
  obtain ⟨houtline, hquestions⟩ := List.append_eq_nil_iff.mp hproblems
  simp only [outlineProblems, List.append_eq_nil_iff, Edition.textProblems_eq_nil_iff]
    at houtline
  obtain ⟨⟨⟨⟨⟨htitle, hscenario⟩, hsolution⟩, hhints⟩, _⟩, _⟩ := houtline
  cases hplace with
  | title => exact htitle
  | scenario => exact hscenario
  | solution => exact hsolution
  | hint hhint =>
      exact Edition.textProblems_eq_nil_iff.mp (flatMap_zipIdx_eq_nil_iff.mp hhints _ _ hhint)
  | question hq =>
      obtain ⟨⟨q, i⟩, hmem, hquestion⟩ := List.mem_filterMap.mp hq
      obtain ⟨_, _, rfl⟩ := Option.map_eq_some_iff.mp hquestion
      have hnil := List.flatMap_eq_nil_iff.mp hquestions _ hmem
      exact Edition.textProblems_eq_nil_iff.mp (List.append_eq_nil_iff.mp hnil).1

/-! ## Lookups -/

/-- The two nights, and a case for the day between them. -/
def nightsAndCase : Manuscript := { twoNights with cases := [lighthouse] }

theorem compile_nightsAndCase : ∃ first second,
    firstNight.compile (twoNights.editionOf ⟨"english", none⟩) = .ok first ∧
    secondNight.compile (twoNights.editionOf ⟨"english", none⟩) = .ok second ∧
    (nightsAndCase.compile ⟨"english", none⟩).chapters = [first, second] ∧
    (nightsAndCase.compile ⟨"english", none⟩).cases = [lighthouse.assemble] := by
  obtain ⟨first, second, hfirst, hsecond, hcompile⟩ := compile_twoNights
  refine ⟨first, second, hfirst, hsecond, congrArg Compilation.chapters hcompile, ?_⟩
  have hkept : nightsAndCase.keptCases = [lighthouse] :=
    sortByNumber_of_pairwise (List.pairwise_singleton _ _)
  rw [Manuscript.compile, Manuscript.caseResults, hkept]
  rfl

end BranchingStory
