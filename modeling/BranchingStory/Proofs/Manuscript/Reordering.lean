import BranchingStory.Build
import BranchingStory.Proofs.Manuscript.Series
import BranchingStory.Proofs.Story.DefaultLinks

/-!
# Builds and the order of the records

Records arrive in the order in which their files are read, and two manuscripts that differ in
this order alone build the same.  Only between records of one number does the order count, for
the first of them is compiled.  `Reordered` says which lists may take each other's place, and
`build_eq_of_reordered` that a build does not tell them apart.

Everything a build lists is sorted, and `sortByNumber_congr` gives the same sorted list for both
orders.  What is not sorted is the set of the chapter numbers, their maximum, and the totals of
the manifest, and none of these depends on an order.
-/

namespace BranchingStory

/-- Lists of the same records, where records of one number stand in the same order. -/
structure Reordered {α : Type} (number : α → Nat) (l l' : List α) : Prop where
  perm : l.Perm l'
  ofNumber_eq : ∀ n, ofNumber number n l = ofNumber number n l'

namespace Reordered

variable {α : Type} {number : α → Nat} {l l' : List α}

/-- Records with distinct numbers may be put in any order. -/
theorem of_perm (hperm : l.Perm l') (hnodup : (l.map number).Nodup) :
    Reordered number l l' := by
  have hnodup' : (l'.map number).Nodup := (hperm.map number).nodup_iff.mp hnodup
  have hsorted : sortByNumber number l = sortByNumber number l' := by
    have hsame : (sortByNumber number l).Perm (sortByNumber number l') :=
      ((perm_sortByNumber number l).trans hperm).trans (perm_sortByNumber number l').symm
    refine List.Perm.eq_of_pairwise ?_ (pairwise_lt_sortByNumber hnodup)
      (pairwise_lt_sortByNumber hnodup') hsame
    intro a b _ _ hab hba
    exact absurd hab (Nat.lt_asymm hba)
  refine ⟨hperm, fun n => ?_⟩
  rw [← ofNumber_sortByNumber, hsorted, ofNumber_sortByNumber]

theorem sortByNumber_eq (h : Reordered number l l') :
    sortByNumber number l = sortByNumber number l' :=
  sortByNumber_congr h.ofNumber_eq

theorem mem_numbers (h : Reordered number l l') {n : Nat} : n ∈ l.map number ↔ n ∈ l'.map number :=
  (h.perm.map number).mem_iff

theorem max?_eq (h : Reordered number l l') : (l.map number).max? = (l'.map number).max? := by
  refine Option.ext fun n => ?_
  simp only [List.max?_eq_some_iff, h.mem_numbers]

end Reordered

/-! ## Checks and manifest -/

/-- The checks of a chapter ask only which chapter numbers there are. -/
theorem Chapter.problems_congr {numbers numbers' : List Nat}
    (h : ∀ n, n ∈ numbers ↔ n ∈ numbers') (last : Nat) :
    Chapter.problems numbers last = Chapter.problems numbers' last := by
  funext c
  have hbroken : ∀ n, c.brokenTargets numbers last n = c.brokenTargets numbers' last n := by
    intro n
    rw [brokenTargets, brokenTargets]
    cases n.next with
    | chapter number => simp only [h]
    | _ => rfl
  have hlinks : c.linkProblems numbers last = c.linkProblems numbers' last := by
    funext n
    rw [linkProblems, linkProblems, hbroken]
  rw [problems, problems, hlinks]

section

variable {chapters chapters' : List Chapter} {cases cases' : List Case}

theorem storyProblems_congr (hchapters : Reordered Chapter.number chapters chapters')
    (hcases : Reordered Case.number cases cases') :
    storyProblems chapters cases = storyProblems chapters' cases' := by
  have hlast : lastNumber chapters = lastNumber chapters' := by
    rw [lastNumber, lastNumber, hchapters.max?_eq]
  rw [storyProblems, storyProblems, hchapters.sortByNumber_eq, hcases.sortByNumber_eq, hlast,
    Chapter.problems_congr fun _ => hchapters.mem_numbers]

theorem Manifest.build_congr (hchapters : Reordered Chapter.number chapters chapters')
    (hcases : Reordered Case.number cases cases') (report : Report) :
    Manifest.build chapters cases report = Manifest.build chapters' cases' report := by
  have hnodes : (chapters.flatMap Chapter.nodes).length =
      (chapters'.flatMap Chapter.nodes).length := (hchapters.perm.flatMap_right _).length_eq
  rw [build, build, hchapters.sortByNumber_eq, hcases.sortByNumber_eq, hchapters.perm.length_eq,
    hcases.perm.length_eq, hnodes]

end

/-! ## Manuscripts -/

namespace Manuscript

/-- Manuscripts that differ in the order of their chapters and cases alone. -/
structure Reordered (m m' : Manuscript) : Prop where
  rejected : m.rejected = m'.rejected
  chapters : BranchingStory.Reordered ChapterDraft.number m.chapters m'.chapters
  cases : BranchingStory.Reordered CaseDraft.number m.cases m'.cases

variable {m m' : Manuscript}

theorem Reordered.compile_eq (h : m.Reordered m') (e : Edition) : m.compile e = m'.compile e := by
  have hedition : m.editionOf e = m'.editionOf e := by
    rw [editionOf, editionOf, h.chapters.max?_eq]
  have hchapters := h.chapters.ofNumber_eq
  have hcases := h.cases.ofNumber_eq
  rw [Manuscript.compile_eq, Manuscript.compile_eq, hedition, h.rejected,
    (chapterSeries _).records_congr hchapters, (caseSeries _).records_congr hcases,
    (chapterSeries _).repeated_congr hchapters, (caseSeries _).repeated_congr hcases,
    (chapterSeries _).refusals_congr hchapters, (caseSeries _).refusals_congr hcases]

end Manuscript

/-- The order of the records does not change a build, and the order of chapters and cases with
distinct numbers changes neither the checks nor the manifest. -/
theorem build_eq_of_reordered :
    (∀ (e : Edition) (m m' : Manuscript), m.Reordered m' → m.build e = m'.build e) ∧
    ∀ (chapters chapters' : List Chapter) (cases cases' : List Case),
      chapters.Perm chapters' → cases.Perm cases' →
      (chapters.map Chapter.number).Nodup → (cases.map Case.number).Nodup →
        storyProblems chapters cases = storyProblems chapters' cases' ∧
        ∀ report,
          Manifest.build chapters cases report = Manifest.build chapters' cases' report := by
  constructor
  · intro e m m' h
    rw [Manuscript.build, Manuscript.build, h.compile_eq]
  · intro chapters chapters' cases cases' hchapters hcases hnumbers hcaseNumbers
    have hreordered := Reordered.of_perm hchapters hnumbers
    have hreorderedCases := Reordered.of_perm hcases hcaseNumbers
    exact ⟨storyProblems_congr hreordered hreorderedCases,
      Manifest.build_congr hreordered hreorderedCases⟩

theorem build_eq_of_reordered_nights :
    (∀ e, repeatedNight.build e =
      Manuscript.build e { chapters := [firstNight, secondNight, { number := 2 }] }) ∧
    (twoNights.compile ⟨"english", none⟩).chapters.map Chapter.number = [1, 2] ∧
    ∀ report, Manifest.build (twoNights.compile ⟨"english", none⟩).chapters [] report =
      Manifest.build (twoNights.compile ⟨"english", none⟩).chapters.reverse [] report := by
  have hordered : repeatedNight.Reordered
      { chapters := [firstNight, secondNight, { number := 2 }] } := by
    refine ⟨rfl, ⟨.swap _ _ _, fun n => ?_⟩, ⟨.nil, fun _ => rfl⟩⟩
    by_cases hfirst : firstNight.number = n
    · simp [repeatedNight, ofNumber_cons, ← hfirst, firstNight, secondNight]
    · simp [repeatedNight, ofNumber_cons, hfirst]
  obtain ⟨f, hf, hcompile⟩ := (plain_twoNights none).compile_eq
  have hnumbers : (twoNights.compile ⟨"english", none⟩).chapters.map Chapter.number = [1, 2] := by
    have hfirst := ChapterDraft.number_of_compile (hf firstNight (by simp [twoNights]))
    have hsecond := ChapterDraft.number_of_compile (hf secondNight (by simp [twoNights]))
    rw [hcompile, inOrder_twoNights, List.map_cons, List.map_singleton, List.map_cons,
      List.map_singleton, hfirst, hsecond]
    rfl
  refine ⟨fun e => build_eq_of_reordered.1 e _ _ hordered, hnumbers, ?_⟩
  have hdistinct : ((twoNights.compile ⟨"english", none⟩).chapters.map Chapter.number).Nodup := by
    rw [hnumbers]
    decide
  exact (build_eq_of_reordered.2 _ _ [] [] (List.reverse_perm _).symm .nil hdistinct .nil).2

end BranchingStory
