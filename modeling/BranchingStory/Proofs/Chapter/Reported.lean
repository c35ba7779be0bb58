import BranchingStory.Proofs.Chapter.WellFormed

/-!
# Reported problems

`NodeDraft.Breaks` lists the ways in which a node can break the rules of its slot, each with the
field it is about and the words of the complaint.  It speaks of a draft alone, so a node breaks a
rule whether or not the compiler comes to look at it.

The compiler looks at nodes only in a draft with every part.  There its problems about nodes are
exactly the rules that they break (`ChapterDraft.mem_problems_iff_of_compile`), whatever else is
wrong.  In a draft that lacks a part it stops at the outline, and no rule that a node breaks is
reported (`ChapterDraft.reportsNodes_iff`).
-/

namespace BranchingStory

/-! ## Broken rules -/

/-- A rule that a node breaks in a slot, by the field it is about and the complaint. -/
inductive NodeDraft.Breaks (n : NodeDraft) (reference : String) (c : ChapterDraft) (slot : Slot) :
    String → String → Prop where
  | missingKind : n.kind = none → Breaks n reference c slot "kind" "missing"
  | unknownKind {name : String} : n.kind = some name → NodeKind.ofName? name = none →
      Breaks n reference c slot "kind" ("unknown kind '" ++ name ++ "'")
  | misplacedKind {kind : NodeKind} : n.kind = some kind.name →
      ¬ ((kind = .investigation ↔ slot = .investigation) ∧
        (kind = .chapterEnd ↔ slot = .ending)) →
      Breaks n reference c slot "kind" ("'" ++ kind.name ++ "' is not allowed in this position")
  | speaker {kind : NodeKind} : n.kind = some kind.name → kind ≠ .dialogue → n.speaker ≠ none →
      Breaks n reference c slot "speaker" "only dialogue nodes have a speaker"
  | text : n.text.contains reference = false →
      Breaks n reference c slot "text" ("missing '" ++ reference ++ "' text")
  | next : n.kind = some NodeKind.choice.name → n.next ≠ none →
      Breaks n reference c slot "next" "choice nodes link through their options"
  | noOptions : n.kind = some NodeKind.choice.name → n.options = [] → ¬ c.Selects slot n →
      Breaks n reference c slot "options" "choice node has no options"
  | optionText {i : Nat} {o : ChoiceDraft} : n.kind = some NodeKind.choice.name →
      n.options[i]? = some o → o.text.contains reference = false →
      Breaks n reference c slot ("options[" ++ i.repr ++ "].text")
        ("missing '" ++ reference ++ "' text")
  | strayOptions {kind : NodeKind} : n.kind = some kind.name → kind ≠ .choice → n.options ≠ [] →
      Breaks n reference c slot "options" "only choice nodes carry options"

/-! ## The checks of a node -/

namespace Placement

/-- The problem is that of a rule which the node breaks in a slot. -/
def Shows (p : Placement) (e : Edition) (c : ChapterDraft) (slot : Slot) (number : Nat)
    (d : Diagnostic) : Prop :=
  ∃ field reason, p.draft.Breaks e.reference c slot field reason ∧ d = p.problem number field reason

variable {e : Edition} {number : Nat} {p : Placement} {c : ChapterDraft} {slot : Slot}
  {n : NodeDraft} {d : Diagnostic}

theorem shows_of_mem_kindProblems (hp : p.Fits c slot p.draft) (h : d ∈ p.kindProblems number) :
    p.Shows e c slot number d := by
  rw [kindProblems] at h
  split at h
  · rename_i hkind
    exact ⟨_, _, .missingKind hkind, List.mem_singleton.mp h⟩
  · rename_i name hkind
    split at h
    · rename_i hunknown
      exact ⟨_, _, .unknownKind hkind hunknown, List.mem_singleton.mp h⟩
    · rename_i kind hknown
      have hname : p.draft.kind = some kind.name := by
        rw [hkind, NodeKind.ofName?_eq_some_iff.mp hknown]
      split at h
      · simp at h
      · rename_i hallows
        rw [hp.part, Slot.allows_part_iff] at hallows
        exact ⟨_, _, .misplacedKind hname hallows, List.mem_singleton.mp h⟩

theorem shows_of_mem_speakerProblems (h : d ∈ p.speakerProblems number) :
    p.Shows e c slot number d := by
  rw [speakerProblems] at h
  split at h
  · rename_i kind hkind
    simp only [List.mem_ite_nil_right, Bool.and_eq_true, Option.isSome_iff_ne_none, bne_iff_ne,
      List.mem_singleton] at h
    obtain ⟨⟨hspeaker, hne⟩, rfl⟩ := h
    exact ⟨_, _, .speaker (kind?_eq_some_iff.mp hkind) hne hspeaker, rfl⟩
  · simp at h

theorem shows_of_mem_textProblems
    (h : d ∈ e.textProblems (.chapter number (some p.id)) "text" p.draft.text) :
    p.Shows e c slot number d := by
  obtain ⟨htext, rfl⟩ := Edition.mem_textProblems_iff.mp h
  exact ⟨_, _, .text htext, rfl⟩

theorem shows_of_mem_optionProblems (hkind : p.draft.kind = some NodeKind.choice.name)
    (h : d ∈ p.optionProblems e number) : p.Shows e c slot number d := by
  obtain ⟨⟨o, i⟩, ho, h⟩ := List.mem_flatMap.mp h
  obtain ⟨htext, rfl⟩ := Edition.mem_textProblems_iff.mp h
  exact ⟨_, _, .optionText hkind (List.mem_zipIdx_iff_getElem?.mp ho) htext, rfl⟩

theorem shows_of_mem_linkProblems (hp : p.Fits c slot p.draft) (h : d ∈ p.linkProblems e number) :
    p.Shows e c slot number d := by
  rw [linkProblems] at h
  split at h
  · simp at h
  · rename_i hfound
    have hkind := kind?_eq_some_iff.mp hfound
    rcases List.mem_append.mp h with h | h
    · simp only [List.mem_ite_nil_right, Option.isSome_iff_ne_none, List.mem_singleton] at h
      obtain ⟨hnext, rfl⟩ := h
      exact ⟨_, _, .next hkind hnext, rfl⟩
    · split at h
      · simp at h
      · rename_i hoptions hdefault
        have hselects : ¬ c.Selects slot p.draft :=
          fun hselects => (hp.offers.mpr hselects).elim hdefault
        exact ⟨_, _, .noOptions hkind hoptions hselects, List.mem_singleton.mp h⟩
      · exact shows_of_mem_optionProblems hkind h
  · rename_i kind hne hfound
    split at h
    · simp at h
    · rename_i hoptions
      have hwritten : p.draft.options ≠ [] := mt List.isEmpty_iff.mpr hoptions
      exact ⟨_, _, .strayOptions (kind?_eq_some_iff.mp hfound) hne hwritten,
        List.mem_singleton.mp h⟩

/-- The problems of a node are the rules that it breaks. -/
theorem mem_problems_iff (hp : p.Fits c slot n) : d ∈ p.problems e number ↔
    ∃ field reason, n.Breaks e.reference c slot field reason ∧
      d = p.problem number field reason := by
  obtain rfl := hp.draft
  simp only [problems, List.mem_append]
  constructor
  · rintro (((h | h) | h) | h)
    · exact shows_of_mem_kindProblems hp h
    · exact shows_of_mem_speakerProblems h
    · exact shows_of_mem_textProblems h
    · exact shows_of_mem_linkProblems hp h
  · rintro ⟨field, reason, hbreaks, rfl⟩
    cases hbreaks with
    | missingKind hkind => simp [kindProblems, hkind]
    | unknownKind hkind hunknown => simp [kindProblems, hkind, hunknown]
    | misplacedKind hkind hslot =>
        rw [← Slot.allows_part_iff, ← hp.part] at hslot
        simp [kindProblems, hkind, NodeKind.ofName?_name, hslot]
    | speaker hkind hne hspeaker =>
        refine .inl (.inl (.inr ?_))
        rw [speakerProblems, kind?_eq_some_iff.mpr hkind]
        simp [Option.isSome_iff_ne_none, hne, hspeaker]
    | text htext =>
        refine .inl (.inr ?_)
        simp [Edition.textProblems, htext, Edition.missingText, problem]
    | next hkind hnext =>
        refine .inr ?_
        simp only [linkProblems, kind?_eq_some_iff.mpr hkind]
        simp [Option.isSome_iff_ne_none, hnext]
    | noOptions hkind hoptions hselects =>
        refine .inr ?_
        simp only [linkProblems, kind?_eq_some_iff.mpr hkind, hoptions]
        cases hdefault : p.defaultLink with
        | choice options => exact absurd (hp.offers.mp ⟨options, hdefault⟩) hselects
        | _ => simp
    | @optionText i o hkind ho htext =>
        refine .inr ?_
        have hmem : p.problem number ("options[" ++ i.repr ++ "].text")
            ("missing '" ++ e.reference ++ "' text") ∈ p.optionProblems e number := by
          refine List.mem_flatMap.mpr ⟨(o, i), List.mem_zipIdx_iff_getElem?.mpr ho, ?_⟩
          simp [Edition.textProblems, htext, Edition.missingText, problem]
        simp only [linkProblems, kind?_eq_some_iff.mpr hkind]
        cases hoptions : p.draft.options with
        | nil => simp [hoptions] at ho
        | cons o rest => exact List.mem_append_right _ hmem
    | strayOptions hkind hne hoptions =>
        refine .inr ?_
        simp only [linkProblems, kind?_eq_some_iff.mpr hkind]
        simp [hoptions]

end Placement

/-- For every node and every slot there is a placement that fits, be there a layout or not. -/
theorem Placement.exists_fits (c : ChapterDraft) (slot : Slot) (n : NodeDraft) :
    ∃ p : Placement, p.Fits c slot n := by
  by_cases hselects : c.Selects slot n
  · exact ⟨⟨n, n.nameAt c.number slot, slot.part, slot.pov, .choice []⟩, rfl, rfl, rfl, rfl,
      iff_of_true ⟨_, rfl⟩ hselects⟩
  · exact ⟨⟨n, n.nameAt c.number slot, slot.part, slot.pov, .ending⟩, rfl, rfl, rfl, rfl,
      iff_of_false (by simp [Link.IsChoice]) hselects⟩

/-- A node follows the rules of its slot exactly if it breaks none. -/
theorem NodeDraft.exists_wellFormed_iff {n : NodeDraft} {reference : String} {c : ChapterDraft}
    {slot : Slot} : (∃ kind, n.WellFormed reference c slot kind) ↔
      ∀ field reason, ¬ n.Breaks reference c slot field reason := by
  obtain ⟨p, hp⟩ := Placement.exists_fits c slot n
  have hproblems : p.problems ⟨reference, none⟩ c.number = [] ↔
      ∃ kind, n.WellFormed reference c slot kind := Placement.problems_eq_nil_iff hp
  rw [← hproblems, List.eq_nil_iff_forall_not_mem]
  constructor
  · intro h field reason hbreaks
    exact h _ ((Placement.mem_problems_iff hp).mpr ⟨field, reason, hbreaks, rfl⟩)
  · intro h d hd
    obtain ⟨field, reason, hbreaks, _⟩ := (Placement.mem_problems_iff hp).mp hd
    exact h field reason hbreaks

/-! ## The report of a refused chapter -/

namespace ChapterDraft

variable {e : Edition} {c : ChapterDraft} {problems : List Diagnostic} {d : Diagnostic}

/-- The draft has every part that a layout needs. -/
structure Complete (c : ChapterDraft) : Prop where
  prologue : c.prologue ≠ []
  filled : ∀ t ∈ c.tracks, t.nodes ≠ []
  investigation : c.investigation ≠ none
  ending : c.ending ≠ none

theorem complete_iff : c.Complete ↔ ∃ l, c.layout? = some l := by
  constructor
  · intro h
    exact exists_layout h.prologue h.filled h.investigation h.ending
  · rintro ⟨l, h⟩
    obtain ⟨_, _, hi, he, hprologue, hfilled, _⟩ := layout?_eq_some_iff.mp h
    exact ⟨hprologue, hfilled, by simp [hi], by simp [he]⟩

/-- The problems of the outline are about the chapter as a whole. -/
theorem exists_eq_problem_of_mem_outlineProblems (h : d ∈ c.outlineProblems e) :
    ∃ field reason, d = c.problem field reason := by
  have htrack : ∀ t i, d ∈ c.trackProblems t i → ∃ field reason, d = c.problem field reason := by
    intro t i h
    simp only [trackProblems, List.mem_append, List.mem_ite_nil_right, List.mem_singleton] at h
    rcases h with (⟨_, rfl⟩ | ⟨_, rfl⟩) | ⟨_, rfl⟩ <;> exact ⟨_, _, rfl⟩
  simp only [outlineProblems, Edition.textProblems, List.mem_append, List.mem_ite_nil_left,
    List.mem_ite_nil_right, List.mem_singleton, List.mem_flatMap] at h
  rcases h with (((⟨_, rfl⟩ | ⟨_, rfl⟩) | ⟨⟨t, i⟩, _, h⟩) | ⟨_, rfl⟩) | ⟨_, rfl⟩
  · exact ⟨_, _, rfl⟩
  · exact ⟨_, _, rfl⟩
  · exact htrack t i h
  · exact ⟨_, _, rfl⟩
  · exact ⟨_, _, rfl⟩

/-- A draft is refused for its outline if it has no layout, for its outline and its nodes if it
has one, or else for a repeated name. -/
theorem error_cases_of_compile (h : c.compile e = .error problems) :
    (c.layout? = none ∧ problems = c.outlineProblems e) ∨
      ∃ l, c.layout? = some l ∧
        (problems = c.outlineProblems e
            ++ (l.place e c.number).flatMap (Placement.problems e c.number) ∨
          l.Clean e c.number ∧
            ∃ name : RepeatedName, problems = [c.problem "id" name.message]) := by
  rw [compile] at h
  split at h
  · exact .inl ⟨‹_›, (Except.error.inj h).symm⟩
  · rename_i l hlayout
    refine .inr ⟨l, hlayout, ?_⟩
    split at h
    · rename_i hnil
      dsimp only at h
      split at h
      · simp at h
      · rename_i name _
        exact .inr ⟨List.flatMap_eq_nil_iff.mp (List.append_eq_nil_iff.mp hnil).2, name,
          (Except.error.inj h).symm⟩
    · exact .inl (Except.error.inj h).symm

/-- What a refused chapter is told about its nodes: in a complete draft the rules that they break,
whatever else is wrong, and otherwise nothing. -/
theorem mem_problems_iff_of_compile (h : c.compile e = .error problems) {id field reason : String} :
    .malformed (.chapter c.number (some id)) field reason ∈ problems ↔
      c.Complete ∧ ∃ place ∈ c.slotted, place.2.nameAt c.number place.1 = id ∧
        place.2.Breaks e.reference c place.1 field reason := by
  have houtline : .malformed (.chapter c.number (some id)) field reason ∉ c.outlineProblems e := by
    intro hmem
    obtain ⟨_, _, heq⟩ := exists_eq_problem_of_mem_outlineProblems hmem
    simp [problem] at heq
  obtain ⟨hnone, rfl⟩ | ⟨l, hlayout, hcases⟩ := error_cases_of_compile h
  · refine iff_of_false houtline fun ⟨hcomplete, _⟩ => ?_
    obtain ⟨l, hlayout⟩ := complete_iff.mp hcomplete
    simp [hnone] at hlayout
  · have hfits := fits_place (e := e) hlayout
    have hcomplete : c.Complete := complete_iff.mpr ⟨l, hlayout⟩
    rcases hcases with rfl | ⟨hclean, name, rfl⟩
    · have hplaces : (∃ place ∈ c.slotted, place.2.nameAt c.number place.1 = id ∧
            place.2.Breaks e.reference c place.1 field reason) ↔
          ∃ p ∈ l.place e c.number, .malformed (.chapter c.number (some id)) field reason ∈
            p.problems e c.number := by
        refine exists_mem_iff_of_forall₂ hfits fun place p hp => ?_
        rw [Placement.mem_problems_iff hp, ← hp.id]
        constructor
        · rintro ⟨rfl, hbreaks⟩
          exact ⟨field, reason, hbreaks, rfl⟩
        · rintro ⟨_, _, hbreaks, heq⟩
          obtain ⟨⟨_, rfl⟩, rfl, rfl⟩ := Diagnostic.malformed.inj heq
          exact ⟨rfl, hbreaks⟩
      rw [List.mem_append, List.mem_flatMap, hplaces]
      exact ⟨fun hmem => ⟨hcomplete, hmem.resolve_left houtline⟩, fun hmem => .inr hmem.2⟩
    · refine iff_of_false (by simp [problem]) ?_
      rintro ⟨_, place, hplace, _, hbreaks⟩
      exact NodeDraft.exists_wellFormed_iff.mp ((clean_iff hlayout).mp hclean place hplace) _ _
        hbreaks

/-- A draft with a node that breaks a rule is refused. -/
theorem exists_error_of_breaks {place : Slot × NodeDraft} (hplace : place ∈ c.slotted)
    {field reason : String} (h : place.2.Breaks e.reference c place.1 field reason) :
    ∃ problems, c.compile e = .error problems := by
  cases hcompile : c.compile e with
  | error problems => exact ⟨problems, rfl⟩
  | ok ch =>
      obtain ⟨l, hlayout, _, hclean, _⟩ := compile_eq_ok_iff.mp hcompile
      exact absurd h (NodeDraft.exists_wellFormed_iff.mp
        ((clean_iff hlayout).mp hclean place hplace) _ _)

/-- Every rule that a node breaks is among the problems that the compiler gives. -/
def ReportsNodes (c : ChapterDraft) (e : Edition) : Prop :=
  ∀ place ∈ c.slotted, ∀ field reason, place.2.Breaks e.reference c place.1 field reason →
    ∃ problems, c.compile e = .error problems ∧
      .malformed (.chapter c.number (some (place.2.nameAt c.number place.1))) field reason ∈
        problems

/-- The broken rules of all nodes are reported in a complete draft, and otherwise only if there is
none. -/
theorem reportsNodes_iff (e : Edition) (c : ChapterDraft) : c.ReportsNodes e ↔
    c.Complete ∨ ∀ place ∈ c.slotted, ∃ kind, place.2.WellFormed e.reference c place.1 kind := by
  simp only [NodeDraft.exists_wellFormed_iff]
  constructor
  · intro h
    refine or_iff_not_imp_right.mpr fun hbroken => ?_
    push Not at hbroken
    obtain ⟨place, hplace, field, reason, hbreaks⟩ := hbroken
    obtain ⟨problems, hcompile, hmem⟩ := h place hplace field reason hbreaks
    exact ((mem_problems_iff_of_compile hcompile).mp hmem).1
  · rintro (hcomplete | hrules) place hplace field reason hbreaks
    · obtain ⟨problems, hcompile⟩ := exists_error_of_breaks hplace hbreaks
      exact ⟨problems, hcompile, (mem_problems_iff_of_compile hcompile).mpr
        ⟨hcomplete, place, hplace, rfl, hbreaks⟩⟩
    · exact absurd hbreaks (hrules place hplace field reason)

/-- A night whose opening is of an unknown kind, and which does not end. -/
def unfinishedNight : ChapterDraft where
  number := 1
  title := english "The first night"
  prologue := [{ kind := some "cutscene", text := english "A scream." }]
  investigation := some { kind := some "investigation", text := english "Search the hall." }

/-- The compiler misses the ending and says nothing of the opening. -/
theorem not_reportsNodes_unfinishedNight :
    unfinishedNight.compile ⟨"english", none⟩ =
        .error [unfinishedNight.problem "ending" "missing"] ∧
      ¬ unfinishedNight.ReportsNodes ⟨"english", none⟩ := by
  have hcompile : unfinishedNight.compile ⟨"english", none⟩ =
      .error [unfinishedNight.problem "ending" "missing"] := by rfl
  refine ⟨hcompile, fun h => ?_⟩
  obtain ⟨problems, hproblems, hmem⟩ := h (.prologue 0, _) (.head _) _ _
    (.unknownKind rfl (by decide))
  obtain rfl := Except.error.inj (hcompile.symm.trans hproblems)
  simp [problem] at hmem

end ChapterDraft

end BranchingStory
