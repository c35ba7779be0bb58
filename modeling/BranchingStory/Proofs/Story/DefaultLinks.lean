import BranchingStory.Proofs.Chapter.DefaultLinks
import BranchingStory.Proofs.Story.Compiled

/-!
# Stories with default links

The layout decides where the end of a chapter leads before any chapter is checked, from the
last chapter that the edition fixes.  The checks go by the highest number of the story.  A
manuscript of plain drafts has no problem if the two agree, and otherwise only those that the
disagreement makes: an ending that ends the story too early, or one that leads past its last
chapter.
-/

namespace BranchingStory

/-- A manuscript of drafts that leave every link to the layout.  They are numbered from
`first` to `last` without gaps, and each of them compiles. -/
structure Manuscript.Plain (e : Edition) (m : Manuscript) (first last : Nat) : Prop where
  /-- Every file could be read. -/
  rejected : m.rejected = []
  /-- There are no cases. -/
  cases : m.cases = []
  /-- There is a chapter. -/
  chapters : m.chapters ≠ []
  /-- Every chapter compiles. -/
  accepted : ∀ c ∈ m.chapters, ∃ ch, c.compile e = .ok ch
  /-- No number repeats. -/
  distinct : (m.chapters.map ChapterDraft.number).Nodup
  /-- The numbers are an interval. -/
  contiguous : ∀ n, n ∈ m.chapters.map ChapterDraft.number ↔ first ≤ n ∧ n ≤ last
  /-- Every chapter is plain. -/
  plain : ∀ c ∈ m.chapters, c.Plain

/-- The highest number of an interval. -/
theorem max?_of_contiguous {numbers : List Nat} {first last : Nat} (hle : first ≤ last)
    (h : ∀ n, n ∈ numbers ↔ first ≤ n ∧ n ≤ last) : numbers.max? = some last :=
  List.max?_eq_some_iff.mpr ⟨(h last).mpr ⟨hle, Nat.le_refl last⟩, fun n hn => ((h n).mp hn).2⟩

namespace Manuscript

variable {e : Edition} {m : Manuscript} {first last : Nat}

/-- The chapters in the order of their numbers. -/
def inOrder (m : Manuscript) : List ChapterDraft := sortByNumber ChapterDraft.number m.chapters

theorem keptChapters_of_nodup (h : (m.chapters.map ChapterDraft.number).Nodup) :
    m.keptChapters = m.inOrder := by
  rw [keptChapters, (firstPerKey_of_nodup h).1, inOrder]

theorem repeatedNumbers_of_nodup (h : (m.chapters.map ChapterDraft.number).Nodup)
    (hcases : m.cases = []) : m.repeatedNumbers = [] := by
  rw [repeatedNumbers, (firstPerKey_of_nodup h).2, hcases, sortByNumber_nil]
  exact List.map_eq_nil_iff.mpr (sortByNumber_nil id)

theorem caseResults_of_no_cases (hcases : m.cases = []) : m.caseResults e = [] := by
  rw [caseResults, keptCases, hcases]
  exact List.map_eq_nil_iff.mpr (sortByNumber_nil _)

/-- Cases that compile and have no problems leave the report as it is without them. -/
theorem report_build_of_clean_cases {cases : List CaseDraft} (hnone : m.cases = [])
    (hdistinct : (cases.map CaseDraft.number).Nodup)
    (hclean : ∀ d ∈ cases, ∃ c, d.compile (m.editionOf e) = .ok c ∧ c.problems = []) :
    (build e { m with cases := cases }).report = (m.build e).report := by
  have hrepeated : repeatedNumbers { m with cases := cases } = m.repeatedNumbers := by
    simp only [repeatedNumbers, (firstPerKey_of_nodup hdistinct).2, hnone]
    rfl
  have hkept : ∀ d ∈ keptCases { m with cases := cases }, d ∈ cases := by
    intro d hd
    rw [keptCases, (firstPerKey_of_nodup hdistinct).1] at hd
    exact mem_sortByNumber.mp hd
  have hrefused : failures (caseResults e { m with cases := cases }) = [] := by
    refine List.eq_nil_iff_forall_not_mem.mpr fun problems hproblems => ?_
    obtain ⟨d, hd, hrefused⟩ := List.mem_map.mp (mem_failures.mp hproblems)
    obtain ⟨c, hc, _⟩ := hclean d (hkept d hd)
    cases hrefused.symm.trans hc
  have hproblems : (sortByNumber Case.number
      (compile e { m with cases := cases }).cases).flatMap Case.problems = [] := by
    refine List.flatMap_eq_nil_iff.mpr fun c hc => ?_
    obtain ⟨d, hd, hcompile⟩ := mem_cases_compile_iff.mp (mem_sortByNumber.mp hc)
    obtain ⟨c', hc', hnil⟩ := hclean d (hkept d hd)
    obtain rfl := Except.ok.inj (hcompile.symm.trans hc')
    exact hnil
  have hnoCase : (m.compile e).cases = [] := by
    rw [compile, caseResults_of_no_cases hnone]
    rfl
  simp only [build, storyProblems, hproblems, hnoCase, sortByNumber_nil, List.flatMap_nil]
  simp only [compile, hrepeated, hrefused, caseResults_of_no_cases hnone]
  rfl
/-- The problems of the ending of a plain chapter, if the story ends from chapter `final` on
and its last chapter is `last`. -/
def endProblems (final last : Nat) (c : ChapterDraft) : List Diagnostic :=
  if final ≤ c.number then
    if c.number = last then [] else [.brokenLink c.number c.endId endingName]
  else if c.number + 1 ≤ last then [] else [.brokenLink c.number c.endId (entryName (c.number + 1))]

/-- If the story does not end past its last chapter, an ending before the last chapter must
not end it. -/
theorem endProblems_of_le {final : Nat} {c : ChapterDraft} (hle : final ≤ last)
    (hc : c.number ≤ last) : endProblems final last c =
      if final ≤ c.number ∧ c.number < last then [.brokenLink c.number c.endId endingName]
      else [] := by
  rw [endProblems]
  by_cases hfinal : final ≤ c.number
  · by_cases hlast : c.number = last
    · simp [hlast, hle]
    · simp [hfinal, hlast, Nat.lt_of_le_of_ne hc hlast]
  · have hnext : c.number + 1 ≤ last := by omega
    simp [hfinal, hnext]

/-- If the story ends past its last chapter, the last chapter leads to a missing one. -/
theorem endProblems_of_lt {final : Nat} {c : ChapterDraft} (hlt : last < final)
    (hc : c.number ≤ last) : endProblems final last c =
      if c.number = last then [.brokenLink c.number c.endId (entryName (c.number + 1))]
      else [] := by
  have hfinal : ¬ final ≤ c.number := by omega
  rw [endProblems, if_neg hfinal]
  by_cases hlast : c.number = last
  · simp [hlast]
  · have hnext : c.number + 1 ≤ last := by omega
    simp [hlast, hnext]

namespace Plain

theorem first_le_last (h : m.Plain e first last) : first ≤ last := by
  obtain ⟨c, hc⟩ := List.exists_mem_of_ne_nil _ h.chapters
  obtain ⟨hfirst, hlast⟩ := (h.contiguous c.number).mp (List.mem_map_of_mem hc)
  exact Nat.le_trans hfirst hlast

/-- The story ends with the last chapter of the edition, or else of the manuscript. -/
theorem editionOf_eq (h : m.Plain e first last) :
    m.editionOf e = { e with lastChapter := some (e.lastChapter.getD last) } := by
  rw [editionOf, max?_of_contiguous h.first_le_last h.contiguous]
  cases e.lastChapter <;> rfl

/-- A plain manuscript compiles without problems, to one chapter for each draft. -/
theorem compile_eq (h : m.Plain e first last) :
    ∃ f : ChapterDraft → Chapter, (∀ c ∈ m.chapters, c.compile (m.editionOf e) = .ok (f c)) ∧
      m.compile e = ⟨m.inOrder.map f, [], []⟩ := by
  have hcompile : ∀ c ∈ m.chapters, ∃ ch, c.compile (m.editionOf e) = .ok ch := by
    intro c hc
    obtain ⟨ch, hch⟩ := h.accepted c hc
    exact ChapterDraft.exists_compile_of_lastChapter hch _
  have : Nonempty Chapter := by
    obtain ⟨c, hc⟩ := List.exists_mem_of_ne_nil _ h.chapters
    obtain ⟨ch, _⟩ := h.accepted c hc
    exact ⟨ch⟩
  choose! f hf using hcompile
  have hresults : m.chapterResults e = (m.inOrder.map f).map .ok := by
    rw [chapterResults, keptChapters_of_nodup h.distinct, List.map_map]
    exact List.map_congr_left fun c hc => hf c (mem_sortByNumber.mp hc)
  refine ⟨f, hf, ?_⟩
  rw [compile, hresults, caseResults_of_no_cases h.cases, successes_map_ok, failures_map_ok,
    h.rejected, repeatedNumbers_of_nodup h.distinct h.cases]
  rfl

/-- The chapter of a draft is shipped. -/
theorem exists_mem_chapters_build (h : m.Plain e first last) {c : ChapterDraft}
    (hc : c ∈ m.chapters) :
    ∃ ch ∈ (m.build e).chapters, c.compile (m.editionOf e) = .ok ch := by
  obtain ⟨f, hf, hcompile⟩ := h.compile_eq
  refine ⟨f c, ?_, hf c hc⟩
  rw [build, hcompile]
  exact List.mem_map_of_mem (mem_sortByNumber.mpr hc)

theorem contiguous_inOrder (h : m.Plain e first last) :
    ∀ n, n ∈ m.inOrder.map ChapterDraft.number ↔ first ≤ n ∧ n ≤ last := by
  intro n
  rw [← h.contiguous n]
  exact ((perm_sortByNumber _ _).map _).mem_iff

theorem number_le (h : m.Plain e first last) {c : ChapterDraft} (hc : c ∈ m.inOrder) :
    c.number ≤ last :=
  ((h.contiguous_inOrder c.number).mp (List.mem_map_of_mem hc)).2

/-- The only problems of a plain chapter are those of its ending. -/
theorem problems_eq (h : m.Plain e first last) {c : ChapterDraft} (hc : c ∈ m.chapters)
    {ch : Chapter} (hch : c.compile (m.editionOf e) = .ok ch) :
    ch.problems (m.inOrder.map ChapterDraft.number) last =
      endProblems (e.lastChapter.getD last) last c := by
  have hnumbers := h.contiguous_inOrder
  have hfirst : first ≤ c.number := ((h.contiguous c.number).mp (List.mem_map_of_mem hc)).1
  have hlink : (m.editionOf e).linkAfter c.number =
      if e.lastChapter.getD last ≤ c.number then .ending else .chapter (c.number + 1) := by
    rw [h.editionOf_eq]
    rfl
  rw [endProblems]
  by_cases hfinal : e.lastChapter.getD last ≤ c.number
  · rw [if_pos hfinal] at hlink ⊢
    exact ChapterDraft.problems_of_plain_of_ending (h.plain c hc) hch hlink _ _
  · have hpast : last + 1 ∉ m.inOrder.map ChapterDraft.number := by
      rw [hnumbers]
      omega
    have hnext : c.number + 1 ∈ m.inOrder.map ChapterDraft.number ↔ c.number + 1 ≤ last := by
      rw [hnumbers]
      omega
    rw [if_neg hfinal] at hlink ⊢
    rw [ChapterDraft.problems_of_plain_of_next (h.plain c hc) hch hlink hpast]
    simp only [hnext]

/-- The only problems of a plain manuscript are those of its endings. -/
theorem report_build (h : m.Plain e first last) :
    (m.build e).report = m.inOrder.flatMap (endProblems (e.lastChapter.getD last) last) := by
  obtain ⟨f, hf, hcompile⟩ := h.compile_eq
  have hnumber : ∀ c ∈ m.inOrder, (f c).number = c.number := fun c hc =>
    ChapterDraft.number_of_compile (hf c (mem_sortByNumber.mp hc))
  have hsorted : sortByNumber Chapter.number (m.inOrder.map f) = m.inOrder.map f := by
    refine sortByNumber_of_pairwise (List.pairwise_map.mpr ?_)
    refine (pairwise_sortByNumber _ _).imp_of_mem fun hc hd hle => ?_
    rwa [hnumber _ hc, hnumber _ hd]
  have hnumbers : (m.inOrder.map f).map Chapter.number = m.inOrder.map ChapterDraft.number := by
    rw [List.map_map]
    exact List.map_congr_left hnumber
  have hlast : lastNumber (m.inOrder.map f) = last := by
    rw [lastNumber, hnumbers, max?_of_contiguous h.first_le_last h.contiguous_inOrder]
    rfl
  have hcases : sortByNumber Case.number [] = [] := sortByNumber_nil _
  rw [build, hcompile, storyProblems, hsorted, hnumbers, hlast, hcases, List.flatMap_map]
  refine (List.append_nil _).trans (List.flatMap_congr fun c hc => ?_)
  have hc := mem_sortByNumber.mp hc
  exact h.problems_eq hc (hf c hc)

theorem flatMap_endProblems_of_le (h : m.Plain e first last) {final : Nat} (hle : final ≤ last) :
    m.inOrder.flatMap (endProblems final last) =
      (m.inOrder.filter fun c => final ≤ c.number ∧ c.number < last).map fun c =>
        .brokenLink c.number c.endId endingName := by
  rw [← flatMap_ite_singleton]
  exact List.flatMap_congr fun c hc => endProblems_of_le hle (h.number_le hc)

theorem flatMap_endProblems_of_lt (h : m.Plain e first last) {final : Nat} (hlt : last < final) :
    ∃ c ∈ m.chapters, c.number = last ∧ m.inOrder.flatMap (endProblems final last) =
      [.brokenLink last c.endId (entryName (last + 1))] := by
  have hmem := (h.contiguous_inOrder last).mpr ⟨h.first_le_last, Nat.le_refl last⟩
  obtain ⟨c, hc, rfl⟩ := List.mem_map.mp hmem
  have hdistinct : (m.inOrder.map ChapterDraft.number).Nodup :=
    ((perm_sortByNumber _ _).map _).nodup_iff.mpr h.distinct
  refine ⟨c, mem_sortByNumber.mp hc, rfl, ?_⟩
  rw [flatMap_eq_of_unique (List.Nodup.of_map _ hdistinct) hc, endProblems_of_lt hlt
    (Nat.le_refl _), if_pos rfl]
  intro d hd hne
  rw [endProblems_of_lt hlt (h.number_le hd), if_neg]
  exact fun hnumber => hne (List.inj_on_of_nodup_map hdistinct hd hc hnumber)

/-- With no last chapter in the edition, the highest number is the last chapter. -/
theorem report_of_lastChapter_none (h : m.Plain e first last) (hnone : e.lastChapter = none) :
    (m.build e).report = [] := by
  rw [h.report_build, hnone, Option.getD_none, h.flatMap_endProblems_of_le (Nat.le_refl last),
    List.map_eq_nil_iff, List.filter_eq_nil_iff]
  intro c _ hboth
  simp at hboth
  omega

end Plain

/-- The report of a plain manuscript is empty exactly if the edition and the manuscript agree
on the last chapter.  Otherwise it names the endings of the chapters that end the story too
early, or the ending of the last chapter if the edition ends the story past it. -/
theorem report_of_plain (h : m.Plain e first last) :
    (e.lastChapter = none → (m.build e).report = []) ∧
    ∀ final, e.lastChapter = some final →
      ((m.build e).report = [] ↔
        final ≤ last ∧ ∀ c ∈ m.chapters, c.number ≠ last → c.number < final) ∧
      (final ≤ last → (m.build e).report =
        (m.inOrder.filter fun c => final ≤ c.number ∧ c.number < last).map fun c =>
          .brokenLink c.number c.endId endingName) ∧
      (last < final → ∃ c ∈ m.chapters, c.number = last ∧
        (m.build e).report = [.brokenLink last c.endId (entryName (last + 1))]) := by
  refine ⟨h.report_of_lastChapter_none, fun final hsome => ?_⟩
  rw [h.report_build, hsome, Option.getD_some]
  refine ⟨?_, h.flatMap_endProblems_of_le, h.flatMap_endProblems_of_lt⟩
  rcases Nat.lt_or_ge last final with hlt | hle
  · obtain ⟨c, _, _, hreport⟩ := h.flatMap_endProblems_of_lt hlt
    rw [hreport]
    refine iff_of_false (by simp) fun hagree => ?_
    exact absurd hagree.1 (Nat.not_le.mpr hlt)
  · rw [h.flatMap_endProblems_of_le hle, List.map_eq_nil_iff, List.filter_eq_nil_iff]
    simp only [decide_eq_true_eq, hle, true_and]
    constructor
    · intro hnone c hc hne
      have hlast := h.number_le (mem_sortByNumber.mpr hc)
      have hnot := hnone c (mem_sortByNumber.mpr hc)
      omega
    · intro hagree c hc hboth
      have hlt := hagree c (mem_sortByNumber.mp hc)
      omega

end Manuscript

/-! ## Two nights -/

/-- A night whose prologue ends with a choice between two tracks. -/
def firstNight : ChapterDraft where
  number := 1
  title := english "The first night"
  prologue :=
    [{ kind := some "dialogue", text := english "A scream." },
      { id := some "WHO", kind := some "choice", text := english "Who are you?" }]
  tracks :=
    [{ pov := "consort", nodes := [{ kind := some "dialogue", text := english "You woke." }] },
      { pov := "scholar", nodes := [{ kind := some "dialogue", text := english "You read." }] }]
  investigation := some { kind := some "investigation", text := english "Search the hall." }
  ending := some { kind := some "chapter_end", text := english "You find a letter." }

/-- A night without tracks. -/
def secondNight : ChapterDraft where
  number := 2
  title := english "The second night"
  prologue := [{ kind := some "dialogue", text := english "Snow falls." }]
  investigation := some { kind := some "investigation", text := english "Follow the steps." }
  ending := some { kind := some "chapter_end", text := english "The gate closes." }

/-- Two nights. -/
def twoNights : Manuscript where
  chapters := [firstNight, secondNight]

/-- The second night before the first, and once more without its content. -/
def repeatedNight : Manuscript where
  chapters := [secondNight, firstNight, { number := 2 }]

theorem plain_twoNights (lastChapter : Option Nat) :
    twoNights.Plain ⟨"english", lastChapter⟩ 1 2 where
  rejected := rfl
  cases := rfl
  chapters := by simp [twoNights]
  accepted := by
    have haccepted : ∀ c ∈ twoNights.chapters, ∃ ch, c.compile ⟨"english", none⟩ = .ok ch := by
      simp only [twoNights, List.forall_mem_cons]
      exact ⟨⟨_, by rfl⟩, ⟨_, by rfl⟩, by simp⟩
    intro c hc
    obtain ⟨ch, hch⟩ := haccepted c hc
    exact ChapterDraft.exists_compile_of_lastChapter hch lastChapter
  distinct := by decide
  contiguous n := by
    simp [twoNights, firstNight, secondNight]
    omega
  plain := by
    simp only [twoNights, List.forall_mem_cons]
    exact ⟨⟨by decide, by decide, by decide⟩, ⟨by decide, by decide, by decide⟩, by simp⟩

theorem inOrder_twoNights : twoNights.inOrder = [firstNight, secondNight] := by
  refine sortByNumber_of_pairwise (List.pairwise_pair.mpr ?_)
  decide

theorem compile_twoNights : ∃ first second,
    firstNight.compile (twoNights.editionOf ⟨"english", none⟩) = .ok first ∧
    secondNight.compile (twoNights.editionOf ⟨"english", none⟩) = .ok second ∧
    twoNights.compile ⟨"english", none⟩ = ⟨[first, second], [], []⟩ := by
  obtain ⟨f, hf, hcompile⟩ := (plain_twoNights none).compile_eq
  rw [inOrder_twoNights] at hcompile
  exact ⟨_, _, hf _ (.head _), hf _ (.tail _ (.head _)), hcompile⟩

theorem report_of_twoNights :
    (∀ lastChapter, twoNights.Plain ⟨"english", lastChapter⟩ 1 2) ∧
    (twoNights.build ⟨"english", none⟩).report = [] ∧
    (twoNights.build ⟨"english", some 1⟩).report = [.brokenLink 1 "CH1_END" "ENDING"] ∧
    (twoNights.build ⟨"english", some 2⟩).report = [] ∧
    (twoNights.build ⟨"english", some 3⟩).report = [.brokenLink 2 "CH2_END" "CH3_START"] := by
  have hreport := fun lastChapter => Manuscript.report_of_plain (plain_twoNights lastChapter)
  refine ⟨plain_twoNights, (hreport none).1 rfl, ?_, ?_, ?_⟩
  · rw [((hreport (some 1)).2 1 rfl).2.1 (by decide), inOrder_twoNights]
    rfl
  · exact ((hreport (some 2)).2 2 rfl).1.mpr (by decide)
  · obtain ⟨c, hc, hnumber, hlast⟩ := ((hreport (some 3)).2 3 rfl).2.2 (by decide)
    rw [hlast]
    simp only [twoNights, List.mem_cons, List.not_mem_nil, or_false] at hc
    rcases hc with rfl | rfl
    · cases hnumber
    · decide

end BranchingStory
