import BranchingStory.Build
import BranchingStory.Proofs.Chapter.Compiled
import BranchingStory.Proofs.Chapter.Soundness
import BranchingStory.Proofs.Manuscript.Numbers
import BranchingStory.Proofs.Puzzle.Compiled

/-!
# Stories that pass the checks

What a build without errors ships.  The compiler gives distinct chapter numbers, distinct
names within a chapter and no empty choice.  The checks give the rules for each chapter.
`SoundStory` puts the two together, and `Manuscript.soundStory_of_errors_eq_nil` says that
every build without errors ships such a story.
-/

namespace BranchingStory

/-- Chapters that fit together as one story.  Numbers and names are distinct, no choice is
empty, and every chapter follows the rules. -/
structure SoundStory (story : List Chapter) : Prop where
  numbers : (story.map Chapter.number).Nodup
  ids : ∀ c ∈ story, c.ids.Nodup
  choices : ∀ c ∈ story, ∀ n ∈ c.nodes, n.next ≠ .choice []
  chapters : ∀ c ∈ story, c.Sound (story.map Chapter.number) (lastNumber story)

/-! ## The last chapter -/

theorem number_le_lastNumber {story : List Chapter} {c : Chapter} (hc : c ∈ story) :
    c.number ≤ lastNumber story := by
  have hmem : c.number ∈ story.map Chapter.number := List.mem_map_of_mem hc
  cases hmax : (story.map Chapter.number).max? with
  | none =>
      rw [List.max?_eq_none_iff.mp hmax] at hmem
      simp at hmem
  | some last =>
      have hle : c.number ≤ last := (List.max?_eq_some_iff.mp hmax).2 _ hmem
      simpa [lastNumber, hmax] using hle

/-- In a sound story two chapters of one number are the same chapter. -/
theorem SoundStory.chapter_ext {story : List Chapter} (hs : SoundStory story) {c d : Chapter}
    (hc : c ∈ story) (hd : d ∈ story) (h : c.number = d.number) : c = d :=
  List.inj_on_of_nodup_map hs.numbers hc hd h

/-! ## Builds without errors -/

namespace Manuscript

variable {e : Edition} {m : Manuscript}

/-- The chapters of a build are those that compile among the ones to compile. -/
theorem mem_chapters_compile_iff {ch : Chapter} :
    ch ∈ (m.compile e).chapters ↔
      ∃ c ∈ m.keptChapters, c.compile (m.editionOf e) = .ok ch := by
  simp only [compile, mem_successes, chapterResults, List.mem_map]

/-- The cases of a build are those that compile among the ones to compile. -/
theorem mem_cases_compile_iff {case : Case} :
    case ∈ (m.compile e).cases ↔ ∃ c ∈ m.keptCases, c.compile (m.editionOf e) = .ok case := by
  simp only [compile, mem_successes, caseResults, List.mem_map]

/-- The numbers of the compiled chapters strictly increase. -/
theorem pairwise_lt_chapters_compile :
    (m.compile e).chapters.Pairwise fun c d => c.number < d.number :=
  pairwise_lt_successes (fun _ _ => ChapterDraft.number_of_compile)
    (pairwise_lt_sortByNumber_firstPerKey _ _)

/-- The numbers of the compiled cases strictly increase. -/
theorem pairwise_lt_cases_compile :
    (m.compile e).cases.Pairwise fun c d => c.number < d.number :=
  pairwise_lt_successes (fun _ _ => CaseDraft.number_of_compile)
    (pairwise_lt_sortByNumber_firstPerKey _ _)

/-- The compiled chapters have distinct numbers. -/
theorem nodup_number_chapters_compile :
    ((m.compile e).chapters.map Chapter.number).Nodup :=
  List.pairwise_map.mpr (pairwise_lt_chapters_compile.imp Nat.ne_of_lt)

/-- A report without errors has none about any chapter. -/
theorem errors_problems_of_errors_eq_nil (h : (m.build e).report.errors = []) {c : Chapter}
    (hc : c ∈ (m.build e).chapters) :
    Report.errors (c.problems ((m.build e).chapters.map Chapter.number)
      (lastNumber (m.build e).chapters)) = [] := by
  have hstory : Report.errors (storyProblems (m.compile e).chapters (m.compile e).cases) = [] := by
    rw [build, Report.errors_append] at h
    exact (List.append_eq_nil_iff.mp h).2
  rw [storyProblems, Report.errors_append] at hstory
  exact Report.errors_flatMap_eq_nil_iff.mp (List.append_eq_nil_iff.mp hstory).1 c
    (mem_sortByNumber.mpr hc)

/-- There is a manifest exactly if the report has no error. -/
theorem isSome_manifest_build :
    (m.build e).manifest.isSome = !Report.hasErrors (m.build e).report := by
  simp only [build, Manifest.build]
  split <;> simp_all [Except.toOption]

theorem isSome_manifest_of_errors_eq_nil (h : (m.build e).report.errors = []) :
    (m.build e).manifest.isSome := by
  have hnone : Report.hasErrors (m.build e).report = false := by
    simpa [Report.hasErrors, Report.errors] using h
  rw [isSome_manifest_build, hnone]
  rfl

/-- A build without errors ships a sound story. -/
theorem soundStory_of_errors_eq_nil (h : (m.build e).report.errors = []) :
    SoundStory (m.build e).chapters where
  numbers := nodup_number_chapters_compile
  ids c hc := by
    obtain ⟨d, _, hd⟩ := mem_chapters_compile_iff.mp hc
    exact ChapterDraft.nodup_ids_of_compile hd
  choices c hc n hn := by
    obtain ⟨d, _, hd⟩ := mem_chapters_compile_iff.mp hc
    exact ChapterDraft.next_ne_choice_nil_of_compile hd hn
  chapters c hc := by
    obtain ⟨d, _, hd⟩ := mem_chapters_compile_iff.mp hc
    exact (Chapter.errors_problems_eq_nil_iff (ChapterDraft.nodup_ids_of_compile hd)).mp
      (errors_problems_of_errors_eq_nil h hc)

end Manuscript

end BranchingStory
