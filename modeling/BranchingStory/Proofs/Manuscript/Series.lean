import BranchingStory.Compile.Manuscript
import BranchingStory.Proofs.Manuscript.Numbers
import BranchingStory.Proofs.Manuscript.Refused
import BranchingStory.Proofs.Puzzle.Compiled

/-!
# Numbered series

The chapters and the cases of a manuscript compile in the same way.  A `Series` is what the two
differ in: the numbers of drafts and records, how a draft compiles, what a problem is about and
how a number that is taken is reported.  A series gives records, a problem for every repeated
number and the problems of the refused drafts, and `Manuscript.compile_eq` puts two of them
together.

Two views of a series follow.  What comes of the drafts of one number comes of the first of them
(`Series.ofNumber_records`, `Series.filter_report`).  And nothing but the drafts of each number
counts (`Series.records_congr`, `Series.repeated_congr`, `Series.refusals_congr`).
-/

namespace BranchingStory

/-! ## What a problem is about -/

/-- The chapter whose authored record a problem belongs to. -/
def Diagnostic.chapter? : Diagnostic → Option Nat
  | malformed (.chapter number _) _ _ => some number
  | _ => none

/-- The case whose authored record a problem belongs to. -/
def Diagnostic.case? : Diagnostic → Option Nat
  | malformed (.case number _) _ _ => some number
  | _ => none

theorem Diagnostic.isError_of_chapter? {d : Diagnostic} {n : Nat} (h : d.chapter? = some n) :
    d.isError = true := by
  cases d with
  | malformed => rfl
  | _ => simp [chapter?] at h

theorem Diagnostic.isError_of_case? {d : Diagnostic} {n : Nat} (h : d.case? = some n) :
    d.isError = true := by
  cases d with
  | malformed => rfl
  | _ => simp [case?] at h

/-- A problem of a field is not a number that is taken. -/
theorem Diagnostic.Faults.ne_number {origin : Option String → Origin} {d : Diagnostic}
    {o : Origin} {reason : String} (h : d.Faults origin) :
    d ≠ .malformed o "number" reason := by
  obtain ⟨part, field, reason, rfl, hfield⟩ := h
  exact fun heq => hfield (Diagnostic.malformed.inj heq).2.1

theorem Diagnostic.Faults.chapter?_eq {d : Diagnostic} {n : Nat} (h : d.Faults (.chapter n)) :
    d.chapter? = some n := by
  obtain ⟨_, _, _, rfl, _⟩ := h
  rfl

theorem Diagnostic.Faults.case?_eq {d : Diagnostic} {n : Nat} (h : d.Faults (.case n)) :
    d.case? = some n := by
  obtain ⟨_, _, _, rfl, _⟩ := h
  rfl

/-! ## Series -/

/-- Records of one sort, which are told apart by their numbers. -/
structure Series (δ ρ : Type) where
  /-- The number of a draft. -/
  draftNumber : δ → Nat
  /-- The number of a compiled record. -/
  number : ρ → Nat
  /-- The record of a draft, or its problems. -/
  compile : δ → Except (List Diagnostic) ρ
  /-- The number of the record that a problem is about. -/
  about : Diagnostic → Option Nat
  /-- The problem of a draft whose number is taken. -/
  taken : Nat → Diagnostic
  number_of_compile : ∀ d r, compile d = .ok r → number r = draftNumber d
  refused : ∀ d problems, compile d = .error problems →
    problems ≠ [] ∧ ∀ p ∈ problems, about p = some (draftNumber d) ∧ p ≠ taken (draftNumber d)
  about_taken : ∀ n, about (taken n) = some n
  isError_of_about : ∀ p n, about p = some n → p.isError = true

/-- The chapters of an edition. -/
def chapterSeries (e : Edition) : Series ChapterDraft Chapter where
  draftNumber := ChapterDraft.number
  number := Chapter.number
  compile := ChapterDraft.compile e
  about := Diagnostic.chapter?
  taken n := .malformed (.chapter n none) "number" "duplicate chapter number"
  number_of_compile _ _ := ChapterDraft.number_of_compile
  refused _ _ h :=
    have ⟨hne, hfaults⟩ := ChapterDraft.faults_of_compile h
    ⟨hne, fun p hp => ⟨(hfaults p hp).chapter?_eq, (hfaults p hp).ne_number⟩⟩
  about_taken _ := rfl
  isError_of_about _ _ := Diagnostic.isError_of_chapter?

/-- The cases of an edition. -/
def caseSeries (e : Edition) : Series CaseDraft Case where
  draftNumber := CaseDraft.number
  number := Case.number
  compile := CaseDraft.compile e
  about := Diagnostic.case?
  taken n := .malformed (.case n none) "number" "duplicate case number"
  number_of_compile _ _ := CaseDraft.number_of_compile
  refused _ _ h :=
    have ⟨hne, hfaults⟩ := CaseDraft.faults_of_compile h
    ⟨hne, fun p hp => ⟨(hfaults p hp).case?_eq, (hfaults p hp).ne_number⟩⟩
  about_taken _ := rfl
  isError_of_about _ _ := Diagnostic.isError_of_case?

namespace Series

variable {δ ρ : Type} (s : Series δ ρ) {drafts drafts' : List δ} {n : Nat}

/-- The drafts to compile: the first of each number, by number. -/
def kept (drafts : List δ) : List δ :=
  sortByNumber s.draftNumber (firstPerKey s.draftNumber drafts)

/-- The result for each draft to compile. -/
def results (drafts : List δ) : List (Except (List Diagnostic) ρ) :=
  (s.kept drafts).map s.compile

/-- The compiled records. -/
def records (drafts : List δ) : List ρ := successes (s.results drafts)

/-- One problem for every draft whose number is taken. -/
def repeated (drafts : List δ) : List Diagnostic :=
  (sortByNumber id (repeatedKeys s.draftNumber drafts)).map s.taken

/-- The problems of the drafts that are refused. -/
def refusals (drafts : List δ) : List Diagnostic := (failures (s.results drafts)).flatten

/-- Every problem of the series. -/
def report (drafts : List δ) : Report := s.repeated drafts ++ s.refusals drafts

/-! ## One number -/

theorem ofNumber_kept (n : Nat) (drafts : List δ) :
    ofNumber s.draftNumber n (s.kept drafts) = (ofNumber s.draftNumber n drafts).take 1 := by
  rw [kept, ofNumber_sortByNumber, ofNumber_firstPerKey]

/-- The numbers of the records strictly increase. -/
theorem pairwise_lt_records (drafts : List δ) :
    (s.records drafts).Pairwise fun a b => s.number a < s.number b :=
  pairwise_lt_successes s.number_of_compile (pairwise_lt_sortByNumber_firstPerKey _ _)

/-- The record of a number comes of the first draft of the number. -/
theorem ofNumber_records (n : Nat) (drafts : List δ) :
    ofNumber s.number n (s.records drafts) =
      successes (((ofNumber s.draftNumber n drafts).take 1).map s.compile) := by
  rw [records, results, ofNumber_successes s.number_of_compile, ofNumber_kept]

/-- Of the drafts of a number all but the first are reported. -/
theorem filter_repeated (n : Nat) (drafts : List δ) :
    (s.repeated drafts).filter (s.about · = some n) =
      List.replicate ((ofNumber s.draftNumber n drafts).length - 1) (s.taken n) := by
  have habout :
      ((fun p => decide (s.about p = some n)) ∘ s.taken) = fun k => decide (id k = n) := by
    funext k
    simp [s.about_taken]
  have hkeys : ofNumber id n (sortByNumber id (repeatedKeys s.draftNumber drafts)) =
      List.replicate ((ofNumber s.draftNumber n drafts).length - 1) n := by
    rw [ofNumber_sortByNumber, ← count_repeatedKeys]
    exact List.filter_eq n
  rw [repeated, List.filter_map, habout, ← ofNumber, hkeys, List.map_replicate]

/-- The problems about a number come of the first draft of the number. -/
theorem filter_refusals (n : Nat) (drafts : List δ) :
    (s.refusals drafts).filter (s.about · = some n) =
      (failures (((ofNumber s.draftNumber n drafts).take 1).map s.compile)).flatten := by
  rw [refusals, results, filter_flatten_failures (P := fun k => k = n), ← ofNumber, ofNumber_kept]
  intro d problems h p hp
  simp [((s.refused d problems h).2 p hp).1]

/-- The problems about a number: its later drafts are repeated and its first may be refused. -/
theorem filter_report (n : Nat) (drafts : List δ) :
    (s.report drafts).filter (s.about · = some n) =
      List.replicate ((ofNumber s.draftNumber n drafts).length - 1) (s.taken n) ++
        (failures (((ofNumber s.draftNumber n drafts).take 1).map s.compile)).flatten := by
  rw [report, List.filter_append, filter_repeated, filter_refusals]

theorem about_of_mem_repeated {p : Diagnostic} (hp : p ∈ s.repeated drafts) :
    ∃ n, s.about p = some n := by
  obtain ⟨n, _, rfl⟩ := List.mem_map.mp hp
  exact ⟨n, s.about_taken n⟩

theorem about_of_mem_refusals {p : Diagnostic} (hp : p ∈ s.refusals drafts) :
    ∃ n, s.about p = some n := by
  obtain ⟨problems, hproblems, hp⟩ := List.mem_flatten.mp hp
  obtain ⟨d, _, hd⟩ := List.mem_map.mp (mem_failures.mp hproblems)
  exact ⟨s.draftNumber d, ((s.refused d problems hd).2 p hp).1⟩

/-- Every problem of a series is about one of its numbers. -/
theorem about_of_mem_report {p : Diagnostic} (hp : p ∈ s.report drafts) :
    ∃ n, s.about p = some n :=
  (List.mem_append.mp hp).elim s.about_of_mem_repeated s.about_of_mem_refusals

/-! ## The drafts of each number -/

section

variable (h : ∀ n, ofNumber s.draftNumber n drafts = ofNumber s.draftNumber n drafts')
include h

theorem results_congr : s.results drafts = s.results drafts' := by
  refine congrArg (List.map s.compile) (sortByNumber_congr fun n => ?_)
  rw [ofNumber_firstPerKey, ofNumber_firstPerKey, h]

theorem records_congr : s.records drafts = s.records drafts' := by
  rw [records, records, s.results_congr h]

theorem refusals_congr : s.refusals drafts = s.refusals drafts' := by
  rw [refusals, refusals, s.results_congr h]

theorem repeated_congr : s.repeated drafts = s.repeated drafts' := by
  refine congrArg (List.map s.taken) (sortByNumber_congr fun n => ?_)
  have hcount : (repeatedKeys s.draftNumber drafts).count n =
      (repeatedKeys s.draftNumber drafts').count n := by
    rw [count_repeatedKeys, count_repeatedKeys, h]
  calc ofNumber id n (repeatedKeys s.draftNumber drafts)
      = List.replicate ((repeatedKeys s.draftNumber drafts).count n) n := List.filter_eq n
    _ = List.replicate ((repeatedKeys s.draftNumber drafts').count n) n := by rw [hcount]
    _ = ofNumber id n (repeatedKeys s.draftNumber drafts') := (List.filter_eq n).symm

end

end Series

/-! ## A manuscript as two series -/

namespace Manuscript

/-- A compilation gives the records of two series, and the problems of both after those of the
unreadable files. -/
theorem compile_eq (e : Edition) (m : Manuscript) :
    m.compile e =
      { chapters := (chapterSeries (m.editionOf e)).records m.chapters
        cases := (caseSeries (m.editionOf e)).records m.cases
        report := m.rejected ++
            ((chapterSeries (m.editionOf e)).repeated m.chapters ++
              (caseSeries (m.editionOf e)).repeated m.cases) ++
            (chapterSeries (m.editionOf e)).refusals m.chapters ++
            (caseSeries (m.editionOf e)).refusals m.cases } :=
  rfl

end Manuscript

end BranchingStory
