import BranchingStory.Proofs.Manuscript.Series
import BranchingStory.Proofs.Story.DefaultLinks

/-!
# No draft is lost

A compilation accounts for every draft.  The first draft of a number becomes the one record of
the number or leaves a problem that says why not, and each later draft leaves one problem.
Nothing else stands in the report but the problems of unreadable files, so a report without an
error belongs to a compilation that turned every draft into a record.

`Series.Accounts` says this of one series.  `Series.accounts_of_filter_eq` proves it of any
report that holds the problems of the series, and `Manuscript.compile_accounts` finds them in
the report of a compilation, where the problems of two series stand together.
-/

namespace BranchingStory

namespace Series

variable {δ ρ : Type} {s : Series δ ρ} {drafts : List δ} {report : Report}

variable (s) in
/-- Records and a report account for drafts, number by number. -/
structure Accounts (drafts : List δ) (records : List ρ) (report : Report) : Prop where
  increasing : records.Pairwise fun a b => s.number a < s.number b
  unused : ∀ n, ofNumber s.draftNumber n drafts = [] →
    ofNumber s.number n records = [] ∧ report.filter (s.about · = some n) = []
  /-- The first draft of the number compiles, and the others are reported. -/
  compiled : ∀ n first later r, ofNumber s.draftNumber n drafts = first :: later →
    s.compile first = .ok r →
      ofNumber s.number n records = [r] ∧
      report.filter (s.about · = some n) = List.replicate later.length (s.taken n)
  /-- The first draft of the number is refused, with its problems after the reported others. -/
  refused : ∀ n first later problems, ofNumber s.draftNumber n drafts = first :: later →
    s.compile first = .error problems →
      ofNumber s.number n records = [] ∧
      report.filter (s.about · = some n) = List.replicate later.length (s.taken n) ++ problems ∧
      problems ≠ [] ∧ s.taken n ∉ problems

variable (s) in
/-- Every draft compiles to a record of its own, and there is no other record. -/
def Complete (drafts : List δ) (records : List ρ) : Prop :=
  ∃ order : List δ, order.Perm drafts ∧ order.map s.compile = records.map .ok

/-! ## Series without problems -/

/-- A series without problems keeps every draft. -/
theorem firstPerKey_of_report_eq_nil (h : s.report drafts = []) :
    firstPerKey s.draftNumber drafts = drafts := by
  have hrepeated : repeatedKeys s.draftNumber drafts = [] := by
    have hsorted := List.map_eq_nil_iff.mp (List.append_eq_nil_iff.mp h).1
    refine List.eq_nil_iff_forall_not_mem.mpr fun n hn => ?_
    have hmem : n ∈ sortByNumber id (repeatedKeys s.draftNumber drafts) := mem_sortByNumber.mpr hn
    rw [hsorted] at hmem
    cases hmem
  have hperm := perm_firstPerKey s.draftNumber drafts
  rw [hrepeated, List.append_nil] at hperm
  exact (firstPerKey_of_nodup (hperm.nodup_iff.mp (nodup_map_firstPerKey _ _))).1

/-- A series without problems refuses no draft. -/
theorem failures_of_report_eq_nil (h : s.report drafts = []) :
    failures (s.results drafts) = [] := by
  have hflat := List.flatten_eq_nil_iff.mp (List.append_eq_nil_iff.mp h).2
  refine List.eq_nil_iff_forall_not_mem.mpr fun problems hproblems => ?_
  obtain ⟨d, _, hd⟩ := List.mem_map.mp (mem_failures.mp hproblems)
  exact (s.refused d problems hd).1 (hflat problems hproblems)

/-- A series without problems compiles all of its drafts. -/
theorem complete_of_report_eq_nil (h : s.report drafts = []) :
    s.Complete drafts (s.records drafts) := by
  refine ⟨s.kept drafts, ?_, (map_ok_successes (failures_of_report_eq_nil h)).symm⟩
  rw [kept, firstPerKey_of_report_eq_nil h]
  exact perm_sortByNumber _ _

/-! ## One series -/

/-- The records of a series and any report with the problems of the series account for its
drafts. -/
theorem accounts_of_filter_eq
    (hfilter : ∀ n, report.filter (s.about · = some n) =
      (s.report drafts).filter (s.about · = some n)) :
    s.Accounts drafts (s.records drafts) report where
  increasing := s.pairwise_lt_records drafts
  unused n hdrafts := by
    rw [ofNumber_records, hfilter, filter_report, hdrafts]
    exact ⟨rfl, rfl⟩
  compiled n first later r hdrafts hfirst := by
    rw [ofNumber_records, hfilter, filter_report, hdrafts, List.take_succ_cons, List.take_zero,
      List.map_singleton, hfirst]
    exact ⟨rfl, List.append_nil _⟩
  refused n first later problems hdrafts hfirst := by
    have hnumber : s.draftNumber first = n :=
      (mem_ofNumber.mp (hdrafts ▸ List.mem_cons_self ..)).2
    obtain ⟨hne, hproblems⟩ := s.refused first problems hfirst
    rw [ofNumber_records, hfilter, filter_report, hdrafts, List.take_succ_cons, List.take_zero,
      List.map_singleton, hfirst]
    refine ⟨rfl, ?_, hne, fun htaken => ?_⟩
    · rw [failures_cons_error, List.flatten_cons]
      exact congrArg _ (List.append_nil _)
    · exact (hproblems _ htaken).2 (hnumber ▸ rfl)

/-- A report with the problems of a series but without an error belongs to a series that is
compiled completely. -/
theorem complete_of_errors_eq_nil
    (hfilter : ∀ n, report.filter (s.about · = some n) =
      (s.report drafts).filter (s.about · = some n))
    (herrors : report.errors = []) : s.Complete drafts (s.records drafts) := by
  refine complete_of_report_eq_nil (List.eq_nil_iff_forall_not_mem.mpr fun p hp => ?_)
  obtain ⟨n, hn⟩ := s.about_of_mem_report hp
  have hmem : p ∈ report.filter (s.about · = some n) := by
    rw [hfilter]
    exact List.mem_filter.mpr ⟨hp, decide_eq_true hn⟩
  exact List.filter_eq_nil_iff.mp herrors p (List.mem_filter.mp hmem).1
    (s.isError_of_about p n hn)

/-- No problem of one series is about a number of the other. -/
theorem filter_eq_nil_of_about {δ' ρ' : Type} {t : Series δ' ρ'} {problems : List Diagnostic}
    (hapart : ∀ p n, t.about p = some n → s.about p = none)
    (habout : ∀ p ∈ problems, ∃ n, t.about p = some n) (n : Nat) :
    problems.filter (s.about · = some n) = [] := by
  refine List.filter_eq_nil_iff.mpr fun p hp => ?_
  obtain ⟨k, hk⟩ := habout p hp
  simp [hapart p k hk]

end Series

/-! ## Two series in one report -/

theorem Diagnostic.chapter?_eq_none_of_case? {d : Diagnostic} {n : Nat}
    (h : d.case? = some n) : d.chapter? = none := by
  cases d with
  | malformed origin _ _ =>
      cases origin with
      | case _ _ => rfl
      | _ => simp [case?] at h
  | _ => rfl

theorem Diagnostic.case?_eq_none_of_chapter? {d : Diagnostic} {n : Nat}
    (h : d.chapter? = some n) : d.case? = none := by
  cases d with
  | malformed origin _ _ =>
      cases origin with
      | chapter _ _ => rfl
      | _ => simp [chapter?] at h
  | _ => rfl

namespace Manuscript

variable (e : Edition) (m : Manuscript)

/-- The problems of the drafts of a manuscript, which follow those of the unreadable files. -/
def found : Report :=
  ((chapterSeries (m.editionOf e)).repeated m.chapters ++
      (caseSeries (m.editionOf e)).repeated m.cases) ++
    (chapterSeries (m.editionOf e)).refusals m.chapters ++
    (caseSeries (m.editionOf e)).refusals m.cases

theorem report_compile : (m.compile e).report = m.rejected ++ m.found e := by
  simp only [compile_eq, found, List.append_assoc]

theorem filter_chapter?_found (n : Nat) :
    (m.found e).filter (·.chapter? = some n) =
      ((chapterSeries (m.editionOf e)).report m.chapters).filter (·.chapter? = some n) := by
  have hcases : ∀ problems : List Diagnostic, (∀ p ∈ problems, ∃ k, p.case? = some k) →
      problems.filter (·.chapter? = some n) = [] := fun _ habout =>
    Series.filter_eq_nil_of_about (s := chapterSeries e) (t := caseSeries e)
      (fun _ _ => Diagnostic.chapter?_eq_none_of_case?) habout n
  simp only [found, Series.report, List.filter_append]
  rw [hcases _ fun _ => (caseSeries _).about_of_mem_repeated,
    hcases _ fun _ => (caseSeries _).about_of_mem_refusals, List.append_nil, List.append_nil]

theorem filter_case?_found (n : Nat) :
    (m.found e).filter (·.case? = some n) =
      ((caseSeries (m.editionOf e)).report m.cases).filter (·.case? = some n) := by
  have hchapters : ∀ problems : List Diagnostic, (∀ p ∈ problems, ∃ k, p.chapter? = some k) →
      problems.filter (·.case? = some n) = [] := fun _ habout =>
    Series.filter_eq_nil_of_about (s := caseSeries e) (t := chapterSeries e)
      (fun _ _ => Diagnostic.case?_eq_none_of_chapter?) habout n
  simp only [found, Series.report, List.filter_append]
  rw [hchapters _ fun _ => (chapterSeries _).about_of_mem_repeated,
    hchapters _ fun _ => (chapterSeries _).about_of_mem_refusals, List.nil_append, List.append_nil]

/-- A problem of a draft is a problem of its chapter or its case. -/
theorem about_of_mem_found {p : Diagnostic} (hp : p ∈ m.found e) :
    ∃ n, p.chapter? = some n ∨ p.case? = some n := by
  simp only [found, List.mem_append] at hp
  rcases hp with ((hp | hp) | hp) | hp
  · exact ((chapterSeries _).about_of_mem_repeated hp).imp fun _ => .inl
  · exact ((caseSeries _).about_of_mem_repeated hp).imp fun _ => .inr
  · exact ((chapterSeries _).about_of_mem_refusals hp).imp fun _ => .inl
  · exact ((caseSeries _).about_of_mem_refusals hp).imp fun _ => .inr

/-- A compilation accounts for every chapter and every case.  The report begins with the problems
of the unreadable files, and what follows is about the drafts.  A report without an error leaves
no draft out. -/
theorem compile_accounts :
    ∃ (edition : Edition) (found : Report),
      edition.reference = e.reference ∧
      edition.lastChapter = e.lastChapter.or (m.chapters.map ChapterDraft.number).max? ∧
      (m.compile e).report = m.rejected ++ found ∧
      (∀ p ∈ found, ∃ n, p.chapter? = some n ∨ p.case? = some n) ∧
      (chapterSeries edition).Accounts m.chapters (m.compile e).chapters found ∧
      (caseSeries edition).Accounts m.cases (m.compile e).cases found ∧
      ((m.compile e).report.errors = [] →
        (chapterSeries edition).Complete m.chapters (m.compile e).chapters ∧
        (caseSeries edition).Complete m.cases (m.compile e).cases) := by
  refine ⟨m.editionOf e, m.found e, rfl, rfl, report_compile e m,
    fun _ => about_of_mem_found e m, Series.accounts_of_filter_eq (filter_chapter?_found e m),
    Series.accounts_of_filter_eq (filter_case?_found e m), fun herrors => ?_⟩
  rw [report_compile, Report.errors_append] at herrors
  have hfound : (m.found e).errors = [] := (List.append_eq_nil_iff.mp herrors).2
  exact ⟨Series.complete_of_errors_eq_nil (filter_chapter?_found e m) hfound,
    Series.complete_of_errors_eq_nil (filter_case?_found e m) hfound⟩

end Manuscript

/-- The nights of `repeatedNight`, a third one without its content, and a file that is no text. -/
def unfinishedNights : Manuscript where
  chapters := repeatedNight.chapters ++ [{ number := 3 }]
  rejected := [.malformed (.file "main/chapter_4.ron") "file"
    "IO error: stream did not contain valid UTF-8"]

theorem compile_accounts_nights :
    ((twoNights.compile ⟨"english", none⟩).report.errors = [] ∧
      ∃ order : List ChapterDraft, order.Perm twoNights.chapters ∧
        order.map (ChapterDraft.compile ⟨"english", some 2⟩) =
          (twoNights.compile ⟨"english", none⟩).chapters.map .ok) ∧
    ∃ r problems found, secondNight.compile ⟨"english", some 3⟩ = .ok r ∧
      ChapterDraft.compile ⟨"english", some 3⟩ { number := 3 } = .error problems ∧
      problems.length = 4 ∧
      (unfinishedNights.compile ⟨"english", none⟩).report = unfinishedNights.rejected ++ found ∧
      ofNumber Chapter.number 2 (unfinishedNights.compile ⟨"english", none⟩).chapters = [r] ∧
      found.filter (·.chapter? = some 2) =
        [.malformed (.chapter 2 none) "number" "duplicate chapter number"] ∧
      ofNumber Chapter.number 3 (unfinishedNights.compile ⟨"english", none⟩).chapters = [] ∧
      found.filter (·.chapter? = some 3) = problems := by
  constructor
  · obtain ⟨_, _, _, _, hcompile⟩ := compile_twoNights
    have herrors : (twoNights.compile ⟨"english", none⟩).report.errors = [] := by
      rw [hcompile]
      rfl
    obtain ⟨⟨_, _⟩, _, rfl, rfl, _, _, _, _, hcomplete⟩ :=
      Manuscript.compile_accounts ⟨"english", none⟩ twoNights
    exact ⟨herrors, (hcomplete herrors).1⟩
  · obtain ⟨⟨_, _⟩, found, rfl, rfl, hreport, _, haccounts, _, _⟩ :=
      Manuscript.compile_accounts ⟨"english", none⟩ unfinishedNights
    obtain ⟨r, hr⟩ : ∃ r, secondNight.compile ⟨"english", some 3⟩ = .ok r := ⟨_, rfl⟩
    obtain ⟨problems, hproblems, hlength⟩ : ∃ problems,
        ChapterDraft.compile ⟨"english", some 3⟩ { number := 3 } = .error problems ∧
          problems.length = 4 := ⟨_, rfl, rfl⟩
    obtain ⟨hsecond, htaken⟩ := haccounts.compiled 2 secondNight [{ number := 2 }] r rfl hr
    obtain ⟨hthird, hrefused, _⟩ := haccounts.refused 3 { number := 3 } [] problems rfl hproblems
    exact ⟨r, problems, found, hr, hproblems, hlength, hreport, hsecond, htaken, hthird, hrefused⟩

end BranchingStory
