import BranchingStory.Proofs.Manuscript.Series
import BranchingStory.Proofs.Story.Compiled
import BranchingStory.Proofs.Story.DefaultLinks
import BranchingStory.Proofs.Translation.Change

/-!
# Translations and the verdict

A build asks of a text only whether it has the reference language.  So a change of the texts
that keeps the reference language goes unnoticed: compiling a changed manuscript gives the
changed records and the same report.

`Edition.Overlooks` says which changes these are.  Every step of the compiler goes with such a
change: naming and placing the nodes (`Layout.place_mapTexts`), looking for problems
(`Placement.problems_mapTexts`), compiling a record (`ChapterDraft.compile_mapTexts`,
`CaseDraft.compile_mapTexts`) and compiling a manuscript (`Manuscript.compile_mapTexts`).  One of
them forgets all languages but the reference.  Manuscripts that it makes equal differ in their
translations alone, and `build_eq_of_only_eq` says that no verdict tells them apart.
-/

namespace BranchingStory

/-- The text with its wording in one language alone. -/
def Translations.only (language : String) (t : Translations) : Translations :=
  t.filter fun l _ => l == language

/-- A change of the texts keeps whether a text has the reference language, and it keeps a text
that has no other language. -/
structure Edition.Overlooks (e : Edition) (f : Translations → Translations) : Prop where
  contains : ∀ t : Translations, (f t).contains e.reference = t.contains e.reference
  label : ∀ wording, f ((∅ : Translations).insert e.reference wording) =
    (∅ : Translations).insert e.reference wording

variable {e : Edition} {f : Translations → Translations}

/-- Forgetting the other languages is overlooked. -/
theorem Edition.overlooks_only (e : Edition) : e.Overlooks (Translations.only e.reference) where
  contains t := by
    rw [Bool.eq_iff_iff, Std.ExtTreeMap.contains_iff_mem, Std.ExtTreeMap.contains_iff_mem,
      Translations.only, Std.ExtTreeMap.mem_filter]
    simp
  label wording := by
    refine Std.ExtTreeMap.ext_getElem? fun l => ?_
    rw [Translations.only, Std.ExtTreeMap.getElem?_filter', Std.ExtTreeMap.getElem?_insert]
    by_cases h : e.reference = l <;> simp [h]

theorem Edition.Overlooks.textProblems_eq (h : e.Overlooks f) (origin : Origin) (field : String)
    (text : Translations) :
    e.textProblems origin field (f text) = e.textProblems origin field text := by
  rw [textProblems, textProblems, h.contains]

/-! ## Layouts -/

/-- The run with the texts of its nodes changed. -/
def Run.mapTexts (f : Translations → Translations) (run : Run) : Run :=
  run.map fun n => (n.1, n.2.mapTexts f)

theorem Run.ofDrafts_mapTexts (number : Nat) (slot : Nat → Slot) (nodes : List NodeDraft) :
    Run.ofDrafts number slot (nodes.map (NodeDraft.mapTexts f)) =
      (Run.ofDrafts number slot nodes).mapTexts f := by
  refine List.ext_getElem? fun i => ?_
  simp only [ofDrafts, mapTexts, List.getElem?_mapIdx, List.getElem?_map, Option.map_map]
  rfl

theorem Run.linkInto_mapTexts (past : Link) (run : Run) :
    Run.linkInto (past.mapTexts f) (run.mapTexts f) = (Run.linkInto past run).mapTexts f := by
  cases run <;> rfl

/-- The placement with the texts of its draft and of its default link changed. -/
def Placement.mapTexts (f : Translations → Translations) (p : Placement) : Placement :=
  { p with draft := p.draft.mapTexts f, defaultLink := p.defaultLink.mapTexts f }

namespace Layout

/-- The layout with the texts of its nodes and the labels of its tracks changed. -/
def mapTexts (f : Translations → Translations) (l : Layout) : Layout :=
  { prologue := l.prologue.mapTexts f
    tracks := l.tracks.map fun t => (t.1.mapTexts f, t.2.mapTexts f)
    investigation := (l.investigation.1, l.investigation.2.mapTexts f)
    ending := (l.ending.1, l.ending.2.mapTexts f) }

variable {l : Layout}

theorem placeRun_mapTexts (part : Part) (pov : Perspective) (after : Link) (run : Run) :
    placeRun part pov (after.mapTexts f) (run.mapTexts f) =
      (placeRun part pov after run).map (Placement.mapTexts f) := by
  induction run with
  | nil => rfl
  | cons first rest ih =>
      rw [placeRun, List.map_cons, ← ih, Placement.mapTexts, ← Run.linkInto_mapTexts]
      rfl

theorem firstRun_mapTexts (tracks : List (TrackDraft × Run)) :
    firstRun (tracks.map fun t => (t.1.mapTexts f, t.2.mapTexts f)) =
      (firstRun tracks).mapTexts f := by
  cases tracks <;> rfl

theorem placeTracks_mapTexts (branches : Bool) (meet : String)
    (tracks : List (TrackDraft × Run)) :
    placeTracks branches (.node meet) (tracks.map fun t => (t.1.mapTexts f, t.2.mapTexts f)) =
      (placeTracks branches (.node meet) tracks).map (Placement.mapTexts f) := by
  have hmeet : (Link.node meet).mapTexts f = .node meet := rfl
  induction tracks with
  | nil => rfl
  | cons t rest ih =>
      have hafter : (if branches then .node meet else Run.linkInto (.node meet)
            (firstRun (rest.map fun t => (t.1.mapTexts f, t.2.mapTexts f)))) =
          (if branches then .node meet
            else Run.linkInto (.node meet) (firstRun rest)).mapTexts f := by
        rw [firstRun_mapTexts, ← hmeet, Run.linkInto_mapTexts]
        cases branches <;> rfl
      rw [List.map_cons, placeTracks, placeTracks, List.map_append, ih, hafter,
        placeRun_mapTexts]
      rfl

theorem branches_mapTexts : (l.mapTexts f).branches = l.branches := by
  simp only [branches, mapTexts, List.isEmpty_map, Run.mapTexts, List.getLast?_map, Option.any_map]
  congr 2
  funext last
  simp [NodeDraft.mapTexts]

theorem trackLabel_mapTexts (h : e.Overlooks f) (t : TrackDraft) :
    trackLabel e (t.mapTexts f) = f (trackLabel e t) := by
  rw [trackLabel, trackLabel, TrackDraft.mapTexts]
  simp only [h.contains]
  split
  · rfl
  · exact (h.label _).symm

theorem trackOptions_mapTexts (h : e.Overlooks f) (tracks : List (TrackDraft × Run)) :
    trackOptions e (tracks.map fun t => (t.1.mapTexts f, t.2.mapTexts f)) =
      (trackOptions e tracks).map (Choice.mapTexts f) := by
  rw [trackOptions, trackOptions, List.filterMap_map, List.map_filterMap]
  refine List.filterMap_congr fun t _ => ?_
  obtain ⟨track, run⟩ := t
  cases run with
  | nil => rfl
  | cons first rest =>
      simp only [Function.comp_apply, Run.mapTexts, List.map_cons, List.head?_cons,
        Option.map_some, Choice.mapTexts, trackLabel_mapTexts h]

theorem linkFromPrologue_mapTexts (h : e.Overlooks f) :
    (l.mapTexts f).linkFromPrologue e = (l.linkFromPrologue e).mapTexts f := by
  rw [linkFromPrologue, linkFromPrologue, branches_mapTexts]
  split
  · exact congrArg Link.choice (trackOptions_mapTexts h l.tracks)
  · rw [← Run.linkInto_mapTexts, ← firstRun_mapTexts]
    rfl

/-- Placing a layout goes with a change of its texts. -/
theorem place_mapTexts (h : e.Overlooks f) (number : Nat) :
    (l.mapTexts f).place e number = (l.place e number).map (Placement.mapTexts f) := by
  have hafter : (e.linkAfter number).mapTexts f = e.linkAfter number :=
    (Link.mapTexts_eq_iff linkAfter_ne_choice).mpr rfl
  rw [place, place, List.map_append, List.map_append, ← placeRun_mapTexts,
    ← placeTracks_mapTexts, linkFromPrologue_mapTexts h, branches_mapTexts]
  simp only [List.map_cons, List.map_nil, Placement.mapTexts, hafter]
  rfl

end Layout

/-- Naming the nodes of a chapter goes with a change of its texts. -/
theorem ChapterDraft.layout?_mapTexts (c : ChapterDraft) :
    (c.mapTexts f).layout? = c.layout?.map (Layout.mapTexts f) := by
  cases hi : c.investigation with
  | none => simp [layout?, mapTexts, hi]
  | some investigation =>
      cases he : c.ending with
      | none => simp [layout?, mapTexts, hi, he]
      | some ending =>
          have htracks : (c.tracks.map (TrackDraft.mapTexts f)).any (·.nodes.isEmpty) =
              c.tracks.any (·.nodes.isEmpty) := by
            simp [TrackDraft.mapTexts, Function.comp_def]
          have hruns : (c.tracks.map (TrackDraft.mapTexts f)).map
                (fun t => (t, Run.ofDrafts c.number (.track t.pov) t.nodes)) =
              (c.tracks.map fun t => (t, Run.ofDrafts c.number (.track t.pov) t.nodes)).map
                fun t => (t.1.mapTexts f, t.2.mapTexts f) := by
            rw [List.map_map, List.map_map]
            refine List.map_congr_left fun t _ => ?_
            rw [Function.comp_apply, Function.comp_apply, ← Run.ofDrafts_mapTexts]
            rfl
          simp only [layout?, mapTexts, hi, he, Option.map_some, List.isEmpty_map, htracks, hruns,
            Run.ofDrafts_mapTexts]
          split <;> rfl

/-! ## Chapters -/

namespace Placement

variable {p : Placement} {number : Nat}

theorem optionProblems_mapTexts (h : e.Overlooks f) :
    (p.mapTexts f).optionProblems e number = p.optionProblems e number := by
  rw [optionProblems, optionProblems, mapTexts, NodeDraft.mapTexts, List.zipIdx_map,
    List.flatMap_map]
  exact List.flatMap_congr fun o _ => h.textProblems_eq ..

theorem linkProblems_mapTexts (h : e.Overlooks f) :
    (p.mapTexts f).linkProblems e number = p.linkProblems e number := by
  have hkind : (p.mapTexts f).kind? = p.kind? := rfl
  rw [linkProblems, linkProblems, hkind, optionProblems_mapTexts h]
  cases p.kind? with
  | none => rfl
  | some kind =>
      cases hoptions : p.draft.options <;> cases hlink : p.defaultLink <;> cases kind <;>
        simp only [mapTexts, NodeDraft.mapTexts, Link.mapTexts, hoptions, hlink, List.map_nil,
          List.map_cons] <;> rfl

/-- The problems of a node go unchanged with a change of its texts. -/
theorem problems_mapTexts (h : e.Overlooks f) :
    (p.mapTexts f).problems e number = p.problems e number := by
  have htext := h.textProblems_eq (.chapter number (some p.id)) "text" p.draft.text
  rw [problems, problems, linkProblems_mapTexts h, ← htext]
  rfl

theorem link_mapTexts : (p.mapTexts f).link = p.link.mapTexts f := by
  rw [link, link]
  cases hoptions : p.draft.options with
  | nil =>
      cases hnext : p.draft.next with
      | none => simp [mapTexts, NodeDraft.mapTexts, hoptions, hnext]
      | some target =>
          cases target <;>
            simp [mapTexts, NodeDraft.mapTexts, hoptions, hnext, LinkDraft.toLink, Link.mapTexts]
  | cons o rest =>
      simp only [mapTexts, NodeDraft.mapTexts, hoptions, List.map_cons, Link.mapTexts,
        List.map_map]
      rfl

theorem node?_mapTexts : (p.mapTexts f).node? = p.node?.map (Node.mapTexts f) := by
  have hkind : (p.mapTexts f).kind? = p.kind? := rfl
  rw [node?, node?, hkind, link_mapTexts, Option.map_map]
  rfl

end Placement

namespace ChapterDraft

variable {c : ChapterDraft} {l : Layout}

theorem outlineProblems_mapTexts (h : e.Overlooks f) :
    (c.mapTexts f).outlineProblems e = c.outlineProblems e := by
  have htrack : ∀ t i, (c.mapTexts f).trackProblems (t.mapTexts f) i = c.trackProblems t i := by
    intro t i
    have hpovs : ((c.mapTexts f).tracks.take i).map TrackDraft.pov =
        (c.tracks.take i).map TrackDraft.pov := by
      rw [mapTexts, ← List.map_take, List.map_map]
      rfl
    simp only [trackProblems, hpovs, TrackDraft.mapTexts, List.isEmpty_map]
    rfl
  refine congrArg₂ (· ++ ·) (congrArg₂ (· ++ ·) (congrArg₂ (· ++ ·) (congrArg₂ (· ++ ·)
    (h.textProblems_eq ..) ?prologue) ?tracks) ?investigation) ?ending
  case prologue => simp only [mapTexts, List.isEmpty_map]; rfl
  case tracks =>
    rw [show (c.mapTexts f).tracks = c.tracks.map (TrackDraft.mapTexts f) from rfl,
      List.zipIdx_map, List.flatMap_map]
    exact List.flatMap_congr fun t _ => htrack t.1 t.2
  case investigation => simp only [mapTexts, Option.isNone_map]; rfl
  case ending => simp only [mapTexts, Option.isNone_map]; rfl

theorem assemble_mapTexts (h : e.Overlooks f) :
    (c.mapTexts f).assemble e (l.mapTexts f) = (c.assemble e l).mapTexts f := by
  have hnodes : ((l.mapTexts f).place e c.number).filterMap Placement.node? =
      ((l.place e c.number).filterMap Placement.node?).map (Node.mapTexts f) := by
    rw [Layout.place_mapTexts h, List.filterMap_map, List.map_filterMap]
    exact List.filterMap_congr fun p _ => Placement.node?_mapTexts
  have htracks : (l.mapTexts f).trackNames = l.trackNames := by
    simp [Layout.trackNames, Layout.mapTexts, Run.mapTexts, TrackDraft.mapTexts, Function.comp_def]
  rw [assemble, htracks]
  exact congrArg (Chapter.mk _ _ _ _) hnodes

/-- A changed draft compiles to the changed chapter, or has the same problems. -/
theorem compile_mapTexts (h : e.Overlooks f) :
    (c.mapTexts f).compile e = (c.compile e).map (Chapter.mapTexts f) := by
  rw [compile, compile, layout?_mapTexts, outlineProblems_mapTexts h]
  cases c.layout? with
  | none => rfl
  | some l =>
      have hplaced : ((l.mapTexts f).place e c.number).flatMap (Placement.problems e c.number) =
          (l.place e c.number).flatMap (Placement.problems e c.number) := by
        rw [Layout.place_mapTexts h, List.flatMap_map]
        exact List.flatMap_congr fun p _ => Placement.problems_mapTexts h
      have hrepeated : ((c.mapTexts f).assemble e (l.mapTexts f)).repeatedName? =
          (c.assemble e l).repeatedName? := by
        rw [Chapter.repeatedName?, Chapter.repeatedName?, assemble_mapTexts h,
          Chapter.ids_mapTexts]
      simp only [Option.map_some]
      rw [show (c.mapTexts f).number = c.number from rfl, hplaced]
      split
      · simp only [hrepeated]
        split
        · rw [assemble_mapTexts h]
          rfl
        · rfl
      · rfl

end ChapterDraft

/-! ## Cases -/

namespace CaseDraft

variable {c : CaseDraft}

theorem problems_mapTexts (h : e.Overlooks f) : (c.mapTexts f).problems e = c.problems e := by
  have hquestion : ∀ q i, (QuestionDraft.mapTexts f q).problems e c.number i =
      q.problems e c.number i := by
    intro q i
    have htext := h.textProblems_eq (.case c.number (some (q.nameAt i))) "text" q.text
    rw [QuestionDraft.problems, QuestionDraft.problems, ← htext]
    rfl
  rw [problems, problems, outlineProblems, outlineProblems]
  simp only [mapTexts, h.textProblems_eq, List.zipIdx_map, List.flatMap_map, List.isEmpty_map,
    Prod.map, id, hquestion]

theorem assemble_mapTexts : (c.mapTexts f).assemble = c.assemble.mapTexts f := by
  have hquestions : (c.mapTexts f).assemble.questions =
      c.assemble.questions.map (Question.mapTexts f) := by
    simp only [assemble]
    rw [show (c.mapTexts f).questions = c.questions.map (QuestionDraft.mapTexts f) from rfl,
      List.zipIdx_map, List.filterMap_map, List.map_filterMap]
    refine List.filterMap_congr fun q _ => ?_
    simp only [QuestionDraft.question?, Option.map_map]
    rfl
  have hrest : (c.mapTexts f).assemble =
      { c.assemble.mapTexts f with questions := (c.mapTexts f).assemble.questions } := rfl
  rw [hrest, hquestions]
  rfl

/-- A changed draft compiles to the changed case, or has the same problems. -/
theorem compile_mapTexts (h : e.Overlooks f) :
    (c.mapTexts f).compile e = (c.compile e).map (Case.mapTexts f) := by
  have hrepeated : (c.mapTexts f).assemble.repeatedName? = c.assemble.repeatedName? := by
    rw [Case.repeatedName?, Case.repeatedName?, assemble_mapTexts, Case.ids_mapTexts]
  rw [compile, compile, problems_mapTexts h]
  split
  · simp only [hrepeated]
    split
    · rw [assemble_mapTexts]
      rfl
    · rfl
  · rfl

end CaseDraft

/-! ## Manuscripts -/

namespace Series

variable {δ ρ : Type} (s : Series δ ρ) {g : δ → δ} {g' : ρ → ρ}
  (hnumber : ∀ d, s.draftNumber (g d) = s.draftNumber d)
include hnumber

theorem repeated_map (drafts : List δ) : s.repeated (drafts.map g) = s.repeated drafts := by
  rw [repeated, repeated, repeatedKeys_map hnumber]

variable (hcompile : ∀ d, s.compile (g d) = (s.compile d).map g')
include hcompile

theorem results_map (drafts : List δ) :
    s.results (drafts.map g) = (s.results drafts).map (Except.map g') := by
  rw [results, results, kept, kept, firstPerKey_map hnumber, sortByNumber_map hnumber,
    List.map_map, List.map_map]
  exact List.map_congr_left fun d _ => hcompile d

/-- Changed drafts give changed records. -/
theorem records_map (drafts : List δ) :
    s.records (drafts.map g) = (s.records drafts).map g' := by
  rw [records, records, s.results_map hnumber hcompile, successes_map_map]

theorem refusals_map (drafts : List δ) : s.refusals (drafts.map g) = s.refusals drafts := by
  rw [refusals, refusals, s.results_map hnumber hcompile, failures_map_map]

end Series

namespace Manuscript

variable {m m' : Manuscript}

/-- A changed manuscript compiles to the changed records, with the same report. -/
theorem compile_mapTexts (h : e.Overlooks f) :
    (m.mapTexts f).compile e =
      { chapters := (m.compile e).chapters.map (Chapter.mapTexts f)
        cases := (m.compile e).cases.map (Case.mapTexts f)
        report := (m.compile e).report } := by
  have hedition : (m.mapTexts f).editionOf e = m.editionOf e := by
    simp only [editionOf, mapTexts, List.map_map]
    rfl
  have hoverlooks : (m.editionOf e).Overlooks f := ⟨h.contains, h.label⟩
  obtain ⟨chapters, hchapters⟩ : ∃ s, s = chapterSeries (m.editionOf e) := ⟨_, rfl⟩
  obtain ⟨cases, hcases⟩ : ∃ s, s = caseSeries (m.editionOf e) := ⟨_, rfl⟩
  have hnumber : ∀ c, chapters.draftNumber (c.mapTexts f) = chapters.draftNumber c :=
    hchapters ▸ fun _ => rfl
  have hcompile : ∀ c, chapters.compile (c.mapTexts f) =
      (chapters.compile c).map (Chapter.mapTexts f) :=
    hchapters ▸ fun _ => ChapterDraft.compile_mapTexts hoverlooks
  have hcaseNumber : ∀ c, cases.draftNumber (c.mapTexts f) = cases.draftNumber c :=
    hcases ▸ fun _ => rfl
  have hcaseCompile : ∀ c, cases.compile (c.mapTexts f) =
      (cases.compile c).map (Case.mapTexts f) :=
    hcases ▸ fun _ => CaseDraft.compile_mapTexts hoverlooks
  rw [compile_eq, compile_eq, hedition, ← hchapters, ← hcases, mapTexts,
    chapters.records_map hnumber hcompile, chapters.refusals_map hnumber hcompile,
    chapters.repeated_map hnumber, cases.records_map hcaseNumber hcaseCompile,
    cases.refusals_map hcaseNumber hcaseCompile, cases.repeated_map hcaseNumber]

/-- A changed manuscript builds to the changed records, with the same report. -/
theorem build_mapTexts (h : e.Overlooks f) :
    ((m.mapTexts f).build e).chapters = (m.build e).chapters.map (Chapter.mapTexts f) ∧
    ((m.mapTexts f).build e).cases = (m.build e).cases.map (Case.mapTexts f) ∧
    ((m.mapTexts f).build e).report = (m.build e).report := by
  simp only [build, compile_mapTexts h, storyProblems_mapTexts, and_self]

end Manuscript

/-- Manuscripts that agree in the reference language have the same verdict: the same report and
exit code, and a manifest or none.  Their records agree in the reference language again, and in
all but their texts. -/
theorem build_eq_of_only_eq (e : Edition) (m m' : Manuscript)
    (h : m.mapTexts (Translations.only e.reference) =
      m'.mapTexts (Translations.only e.reference)) :
    (m.build e).report = (m'.build e).report ∧
    (m.build e).exitCode = (m'.build e).exitCode ∧
    (m.build e).manifest.isSome = (m'.build e).manifest.isSome ∧
    (m.build e).chapters.map (Chapter.mapTexts (Translations.only e.reference)) =
      (m'.build e).chapters.map (Chapter.mapTexts (Translations.only e.reference)) ∧
    (m.build e).cases.map (Case.mapTexts (Translations.only e.reference)) =
      (m'.build e).cases.map (Case.mapTexts (Translations.only e.reference)) ∧
    (m.build e).chapters.map (Chapter.mapTexts fun _ => ∅) =
      (m'.build e).chapters.map (Chapter.mapTexts fun _ => ∅) ∧
    (m.build e).cases.map (Case.mapTexts fun _ => ∅) =
      (m'.build e).cases.map (Case.mapTexts fun _ => ∅) := by
  obtain ⟨hchapters, hcases, hreport⟩ := Manuscript.build_mapTexts (m := m) e.overlooks_only
  obtain ⟨hchapters', hcases', hreport'⟩ := Manuscript.build_mapTexts (m := m') e.overlooks_only
  have hsame : (m.build e).report = (m'.build e).report := by
    rw [← hreport, ← hreport', h]
  have hsameChapters : (m.build e).chapters.map (Chapter.mapTexts (Translations.only e.reference))
      = (m'.build e).chapters.map (Chapter.mapTexts (Translations.only e.reference)) := by
    rw [← hchapters, ← hchapters', h]
  have hsameCases : (m.build e).cases.map (Case.mapTexts (Translations.only e.reference))
      = (m'.build e).cases.map (Case.mapTexts (Translations.only e.reference)) := by
    rw [← hcases, ← hcases', h]
  refine ⟨hsame, ?_, ?_, hsameChapters, hsameCases, ?_, ?_⟩
  · rw [Build.exitCode, Build.exitCode, hsame]
  · rw [Manuscript.isSome_manifest_build, Manuscript.isSome_manifest_build, hsame]
  · -- What is left without any text is left of the records in the reference language.
    have herased := congrArg (List.map (Chapter.mapTexts fun _ => ∅)) hsameChapters
    simpa only [List.map_map, Function.comp_def, Chapter.mapTexts_mapTexts] using herased
  · have herased := congrArg (List.map (Case.mapTexts fun _ => ∅)) hsameCases
    simpa only [List.map_map, Function.comp_def, Case.mapTexts_mapTexts] using herased

/-- Another wording in another language is forgotten. -/
theorem Translations.only_insert {language other : String} (h : other ≠ language)
    (t : Translations) (wording : String) :
    Translations.only language (t.insert other wording) = Translations.only language t := by
  refine Std.ExtTreeMap.ext_getElem? fun l => ?_
  simp only [Translations.only, Std.ExtTreeMap.getElem?_filter', Std.ExtTreeMap.getElem?_insert,
    Std.LawfulEqOrd.compare_eq_iff_eq]
  by_cases hl : other = l
  · subst hl
    cases t[other]? <;> simp [Option.filter, h]
  · simp [hl]

/-- The two nights with a second language.  The tracks have labels in that language alone. -/
def translatedNights : Manuscript :=
  twoNights.mapTexts fun t => t.insert "french" "La nuit tombe."

theorem build_eq_of_only_eq_nights :
    translatedNights ≠ twoNights ∧
    translatedNights.mapTexts (Translations.only "english") =
      twoNights.mapTexts (Translations.only "english") ∧
    (translatedNights.build ⟨"english", none⟩).report = [] ∧
    (translatedNights.build ⟨"english", none⟩).chapters.map (Chapter.mapTexts fun _ => ∅) =
      (twoNights.build ⟨"english", none⟩).chapters.map (Chapter.mapTexts fun _ => ∅) := by
  have honly : translatedNights.mapTexts (Translations.only "english") =
      twoNights.mapTexts (Translations.only "english") := by
    simp [translatedNights, Manuscript.mapTexts, twoNights, firstNight, secondNight,
      ChapterDraft.mapTexts, TrackDraft.mapTexts, NodeDraft.mapTexts, Translations.only_insert]
  have hsame := build_eq_of_only_eq ⟨"english", none⟩ translatedNights twoNights honly
  refine ⟨?_, honly, ?_, hsame.2.2.2.2.2.1⟩
  · intro h
    have htitles := congrArg (fun m => m.chapters.map (·.title.contains "french")) h
    simp [translatedNights, Manuscript.mapTexts, twoNights, firstNight, secondNight,
      ChapterDraft.mapTexts, english] at htitles
  · rw [hsame.1]
    exact (plain_twoNights none).report_of_lastChapter_none rfl

end BranchingStory
