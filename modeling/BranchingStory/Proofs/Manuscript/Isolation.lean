import BranchingStory.Proofs.Alignment
import BranchingStory.Proofs.Manuscript.Series
import BranchingStory.Proofs.Puzzle.Play
import BranchingStory.Proofs.Story.DefaultLinks

/-!
# Faults stay with their record

Whatever is wrong with the drafts of one number, the records of the other numbers compile as
before and their problems are reported as before.  Two things of a draft reach beyond it: its
number may be taken, and the highest number decides which chapter ends the story.  Neither asks
whether the draft compiles.

`DifferAt` compares lists that have the same numbers in the same places.  A series gives the same
records and problems for both, but for those of the number (`Series.records_differAt`,
`Series.refusals_differAt`), and `compile_isolated` says this of a manuscript.
-/

namespace BranchingStory

/-- Lists with the same numbers in the same places.  Only records of the number `n` may differ. -/
def DifferAt {α : Type} (number : α → Nat) (n : Nat) : List α → List α → Prop :=
  List.Forall₂ fun a b => number a = number b ∧ (number a ≠ n → a = b)

namespace DifferAt

variable {α : Type} {number : α → Nat} {n k : Nat} {l l' : List α}

theorem map_number_eq (h : DifferAt number n l l') : l.map number = l'.map number :=
  map_eq_map_of_forall₂ h fun _ _ => And.left

theorem ofNumber_eq (h : DifferAt number n l l') (hk : k ≠ n) :
    ofNumber number k l = ofNumber number k l' := by
  induction h with
  | nil => rfl
  | @cons a b _ _ hab _ ih =>
      rw [ofNumber_cons, ofNumber_cons, ← hab.1, ih]
      by_cases ha : number a = k
      · rw [if_pos ha, if_pos ha, hab.2 (ha.trans_ne hk)]
      · rw [if_neg ha, if_neg ha]

end DifferAt

/-! ## One series -/

namespace Series

variable {δ ρ : Type} (s : Series δ ρ) {drafts drafts' : List δ} {n : Nat}

theorem ofNumber_filter_kept (n k : Nat) (drafts : List δ) :
    ofNumber s.draftNumber k ((s.kept drafts).filter (s.draftNumber · ≠ n)) =
      ((ofNumber s.draftNumber k drafts).take 1).filter (s.draftNumber · ≠ n) := by
  rw [← ofNumber_kept]
  exact List.filter_comm ..

variable (h : DifferAt s.draftNumber n drafts drafts')
include h

/-- The drafts that are compiled are the same, but for the number. -/
theorem kept_differAt : (s.kept drafts).filter (s.draftNumber · ≠ n) =
    (s.kept drafts').filter (s.draftNumber · ≠ n) := by
  refine eq_of_ofNumber_eq ((pairwise_sortByNumber _ _).filter _)
    ((pairwise_sortByNumber _ _).filter _) fun k => ?_
  rw [ofNumber_filter_kept, ofNumber_filter_kept]
  by_cases hk : k = n
  · have hnone : ∀ l : List δ, ((ofNumber s.draftNumber k l).take 1).filter
        (s.draftNumber · ≠ n) = [] := by
      refine fun l => List.filter_eq_nil_iff.mpr fun d hd => ?_
      simp [(mem_ofNumber.mp (List.mem_of_mem_take hd)).2, hk]
    rw [hnone, hnone]
  · rw [h.ofNumber_eq hk]

theorem records_differAt : (s.records drafts).filter (s.number · ≠ n) =
    (s.records drafts').filter (s.number · ≠ n) := by
  have hfilter : ∀ kept : List δ, (successes (kept.map s.compile)).filter (s.number · ≠ n) =
      successes ((kept.filter (s.draftNumber · ≠ n)).map s.compile) := fun _ =>
    filter_successes s.number_of_compile fun k => decide (k ≠ n)
  rw [records, records, results, results, hfilter, hfilter, s.kept_differAt h]

theorem refusals_differAt : (s.refusals drafts).filter (s.about · ≠ some n) =
    (s.refusals drafts').filter (s.about · ≠ some n) := by
  have habout : ∀ d problems, s.compile d = .error problems → ∀ p ∈ problems,
      decide (s.about p ≠ some n) = decide (s.draftNumber d ≠ n) := by
    intro d problems hd p hp
    simp [((s.refused d problems hd).2 p hp).1]
  have hfilter : ∀ kept : List δ,
      (failures (kept.map s.compile)).flatten.filter (s.about · ≠ some n) =
        (failures ((kept.filter (s.draftNumber · ≠ n)).map s.compile)).flatten := fun _ =>
    filter_flatten_failures (P := fun k => k ≠ n) habout
  rw [refusals, refusals, results, results, hfilter, hfilter, s.kept_differAt h]

/-- Which numbers are taken depends on the numbers alone. -/
theorem repeated_differAt : s.repeated drafts = s.repeated drafts' := by
  have hkeys : ∀ l : List δ, repeatedKeys id (l.map s.draftNumber) =
      repeatedKeys s.draftNumber l := repeatedKeys_map fun _ => rfl
  rw [repeated, repeated, ← hkeys, ← hkeys, h.map_number_eq]

end Series

/-! ## Manuscripts -/

namespace Manuscript

/-- Manuscripts that differ in nothing but the chapters of the number `n`. -/
structure DifferAtChapter (n : Nat) (m m' : Manuscript) : Prop where
  rejected : m.rejected = m'.rejected
  chapters : DifferAt ChapterDraft.number n m.chapters m'.chapters
  cases : m.cases = m'.cases

/-- Manuscripts that differ in nothing but the cases of the number `n`. -/
structure DifferAtCase (n : Nat) (m m' : Manuscript) : Prop where
  rejected : m.rejected = m'.rejected
  chapters : m.chapters = m'.chapters
  cases : DifferAt CaseDraft.number n m.cases m'.cases

variable {e : Edition} {m m' : Manuscript} {n : Nat}

/-- Where the story ends depends on the numbers of the chapters alone. -/
theorem editionOf_eq_of_numbers_eq
    (h : m.chapters.map ChapterDraft.number = m'.chapters.map ChapterDraft.number) :
    m.editionOf e = m'.editionOf e := by
  rw [editionOf, editionOf, h]

end Manuscript

/-- A compilation with other chapters of one number differs from the first in the chapter of the
number and in the problems of this chapter, and in nothing else.  The same is true of cases. -/
theorem compile_isolated (e : Edition) (n : Nat) (m m' : Manuscript) :
    (m.DifferAtChapter n m' →
      (m.compile e).chapters.filter (·.number ≠ n) =
          (m'.compile e).chapters.filter (·.number ≠ n) ∧
        (m.compile e).cases = (m'.compile e).cases ∧
        (m.compile e).report.filter (·.chapter? ≠ some n) =
          (m'.compile e).report.filter (·.chapter? ≠ some n)) ∧
    (m.DifferAtCase n m' →
      (m.compile e).chapters = (m'.compile e).chapters ∧
        (m.compile e).cases.filter (·.number ≠ n) = (m'.compile e).cases.filter (·.number ≠ n) ∧
        (m.compile e).report.filter (·.case? ≠ some n) =
          (m'.compile e).report.filter (·.case? ≠ some n)) := by
  constructor
  · rintro ⟨hrejected, hchapters, hcases⟩
    have hedition : m.editionOf e = m'.editionOf e :=
      Manuscript.editionOf_eq_of_numbers_eq hchapters.map_number_eq
    have hrefusals : ((chapterSeries (m'.editionOf e)).refusals m.chapters).filter
          (·.chapter? ≠ some n) =
        ((chapterSeries (m'.editionOf e)).refusals m'.chapters).filter (·.chapter? ≠ some n) :=
      (chapterSeries _).refusals_differAt hchapters
    rw [Manuscript.compile_eq, Manuscript.compile_eq, hedition, hrejected, hcases,
      (chapterSeries _).repeated_differAt hchapters]
    refine ⟨(chapterSeries _).records_differAt hchapters, rfl, ?_⟩
    simp only [List.filter_append, hrefusals]
  · rintro ⟨hrejected, hchapters, hcases⟩
    have hedition : m.editionOf e = m'.editionOf e :=
      Manuscript.editionOf_eq_of_numbers_eq (by rw [hchapters])
    have hrefusals : ((caseSeries (m'.editionOf e)).refusals m.cases).filter
          (·.case? ≠ some n) =
        ((caseSeries (m'.editionOf e)).refusals m'.cases).filter (·.case? ≠ some n) :=
      (caseSeries _).refusals_differAt hcases
    rw [Manuscript.compile_eq, Manuscript.compile_eq, hedition, hrejected, hchapters,
      (caseSeries _).repeated_differAt hcases]
    refine ⟨rfl, (caseSeries _).records_differAt hcases, ?_⟩
    simp only [List.filter_append, hrefusals]

/-- The chapters of `repeatedNight`, but of the second night the draft without content comes
first. -/
def spoiledNight : Manuscript where
  chapters := [{ number := 2 }, firstNight, secondNight]

theorem compile_isolated_nights :
    (repeatedNight.DifferAtChapter 2 spoiledNight ∧
      (repeatedNight.compile ⟨"english", none⟩).chapters.filter (·.number ≠ 2) =
        (spoiledNight.compile ⟨"english", none⟩).chapters.filter (·.number ≠ 2) ∧
      (repeatedNight.compile ⟨"english", none⟩).report.filter (·.chapter? ≠ some 2) =
        (spoiledNight.compile ⟨"english", none⟩).report.filter (·.chapter? ≠ some 2)) ∧
    Manuscript.DifferAtCase 7 { twoNights with cases := [lighthouse] }
        { twoNights with cases := [{ number := 7, difficulty := some "nightmare" }] } ∧
      (Manuscript.compile ⟨"english", none⟩ { twoNights with cases := [lighthouse] }).chapters =
        (Manuscript.compile ⟨"english", none⟩ { twoNights with
          cases := [{ number := 7, difficulty := some "nightmare" }] }).chapters := by
  have hchapters : repeatedNight.DifferAtChapter 2 spoiledNight :=
    ⟨rfl, .cons ⟨rfl, fun h => absurd rfl h⟩ (.cons ⟨rfl, fun _ => rfl⟩
      (.cons ⟨rfl, fun h => absurd rfl h⟩ .nil)), rfl⟩
  have hcases : Manuscript.DifferAtCase 7 { twoNights with cases := [lighthouse] }
      { twoNights with cases := [{ number := 7, difficulty := some "nightmare" }] } :=
    ⟨rfl, rfl, .cons ⟨rfl, fun h => absurd rfl h⟩ .nil⟩
  obtain ⟨hsame, _, hreport⟩ := (compile_isolated ⟨"english", none⟩ 2 _ _).1 hchapters
  exact ⟨⟨hchapters, hsame, hreport⟩, hcases,
    ((compile_isolated ⟨"english", none⟩ 7 _ _).2 hcases).1⟩

end BranchingStory
