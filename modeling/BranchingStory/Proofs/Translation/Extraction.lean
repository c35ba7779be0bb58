import BranchingStory.Proofs.Translation.Coverage

/-!
# Compiled texts in bundles

A bundle holds its texts by key, and texts of one key are merged there.  So a bundle keeps a text
as it is if no other text has its key, and an audit then lists exactly the languages that the
text lacks (`Bundle.Keeps`).

The compiler makes the numbers of the chapters distinct, the names of the nodes of one chapter,
and the names of the questions of one case.  It does not compare the nodes of two chapters or the
names of two cases, and no key of a node says which chapter it is of.  So a bundle keeps every
title of a chapter, and it keeps what stands under a name that no other record uses
(`keeps_of_build`).  Nodes of one name in two chapters share a key, and one of them is lost
(`lost_of_sharedName`).
-/

namespace BranchingStory

/-- The bundle has the text under the key, and for no language more or less than it.  In each
language that an audit covers, the key is a gap exactly if the text lacks the language. -/
structure Bundle.Keeps (b : Bundle) (reference key : String) (text : Translations) : Prop where
  get? : ∀ language, b.get? key language = text[language]?
  gap : ∀ (r : Registry) (language : String), language ≠ reference →
    (r.contains language = true ∨ ∃ key, (b.get? key language).isSome = true) →
    ∃ keys, (b.audit r reference).missing[language]? = some keys ∧
      (key ∈ keys ↔ text[language]? = none)

namespace Bundle

variable {surface reference key : String} {slots : List (String × Translations)}
  {text : Translations}

/-- A text is kept if it has the reference language and no other text has its key. -/
theorem keeps_ofSlots (hmem : (key, text) ∈ slots) (hunique : ∀ s ∈ slots, s.1 = key → s.2 = text)
    (hreference : text.contains reference = true) :
    (ofSlots surface slots).Keeps reference key text := by
  have hget : ∀ language, (ofSlots surface slots).get? key language = text[language]? :=
    fun _ => get?_ofSlots_of_unique hmem hunique
  refine ⟨hget, fun r language hne haudited => ?_⟩
  refine ⟨_, getElem?_missing_audit.mpr ⟨mem_auditedLanguages_iff.mpr ⟨hne, haudited⟩, rfl⟩, ?_⟩
  rw [mem_gaps_iff, hget, hget, ← Std.ExtTreeMap.contains_eq_isSome_getElem?]
  simp [hreference]

end Bundle

namespace Manuscript

variable {e : Edition} {m : Manuscript}

/-- A text of a compiled chapter is kept if no other chapter has a text at its place. -/
theorem keeps_ofChapters {c : Chapter} (hc : c ∈ (m.compile e).chapters) {place : ChapterPlace}
    {text : Translations} (hplace : c.Holds place text)
    (hown : ∀ d ∈ (m.compile e).chapters, ∀ text', d.Holds place text' → d = c) :
    (Bundle.ofChapters (m.compile e).chapters).Keeps e.reference place.key text := by
  obtain ⟨draft, _, hcompile⟩ := mem_chapters_compile_iff.mp hc
  refine Bundle.keeps_ofSlots (mem_chapterSlots_iff.mpr ⟨c, hc, place, hplace, rfl⟩) ?_
    (ChapterDraft.contains_of_compile hcompile hplace)
  intro s hs hkey
  obtain ⟨d, hd, place', hplace', hkey'⟩ := mem_chapterSlots_iff.mp hs
  obtain rfl := ChapterPlace.key_inj.mp (hkey'.trans hkey)
  obtain rfl := hown d hd _ hplace'
  exact hplace'.unique (ChapterDraft.nodup_ids_of_compile hcompile) hplace

/-- A text of a compiled case is kept if no other case has a text under its key. -/
theorem keeps_ofCases {c : Case} (hc : c ∈ (m.compile e).cases) {place : CasePlace}
    {text : Translations} (hplace : c.Holds place text)
    (hown : ∀ d ∈ (m.compile e).cases, ∀ place' text', d.Holds place' text' →
      place'.key = place.key → d = c) :
    (Bundle.ofCases (m.compile e).cases).Keeps e.reference place.key text := by
  obtain ⟨draft, _, hcompile⟩ := mem_cases_compile_iff.mp hc
  refine Bundle.keeps_ofSlots (mem_caseSlots_iff.mpr ⟨c, hc, place, hplace, rfl⟩) ?_
    (CaseDraft.contains_of_compile hcompile hplace)
  intro s hs hkey
  obtain ⟨d, hd, place', hplace', hkey'⟩ := mem_caseSlots_iff.mp hs
  obtain rfl := hown d hd _ _ hplace' (hkey'.trans hkey)
  obtain rfl := hplace'.place_eq hplace (hkey'.trans hkey)
  exact hplace'.unique (CaseDraft.nodup_ids_of_compile hcompile) hplace

end Manuscript

/-- Extraction keeps every title of a chapter.  It keeps a text of a node unless another chapter
has a node of the same name, and a text of an option unless such a node has an option at the
same position.  It keeps the texts and the hints of a case unless another case has the same name,
and the text of a question unless a question of another case has the same full name. -/
theorem keeps_of_build (e : Edition) (m : Manuscript) {b : Build} (hb : m.build e = b) :
    (∀ c ∈ b.chapters,
      (Bundle.ofChapters b.chapters).Keeps e.reference
        ("chapter." ++ c.number.repr ++ ".title") c.title ∧
      ∀ n ∈ c.nodes,
        ((∀ d ∈ b.chapters, n.id ∈ d.ids → d = c) →
          (Bundle.ofChapters b.chapters).Keeps e.reference (n.id ++ ".text") n.text) ∧
        ∀ i o, n.next.options[i]? = some o →
          (∀ d ∈ b.chapters, ∀ n' ∈ d.nodes, n'.id = n.id → i < n'.next.options.length → d = c) →
          (Bundle.ofChapters b.chapters).Keeps e.reference
            (n.id ++ ".option." ++ i.repr) o.text) ∧
    ∀ c ∈ b.cases,
      ((∀ d ∈ b.cases, d.caseId = c.caseId → d = c) →
        (Bundle.ofCases b.cases).Keeps e.reference (c.caseId ++ ".title") c.title ∧
        (Bundle.ofCases b.cases).Keeps e.reference (c.caseId ++ ".scenario") c.scenario ∧
        (Bundle.ofCases b.cases).Keeps e.reference (c.caseId ++ ".solution") c.solution) ∧
      (∀ i hint, c.hints[i]? = some hint →
        (∀ d ∈ b.cases, d.caseId = c.caseId → i < d.hints.length → d = c) →
        (Bundle.ofCases b.cases).Keeps e.reference (c.caseId ++ ".hint." ++ i.repr) hint) ∧
      ∀ q ∈ c.questions,
        (∀ d ∈ b.cases, ∀ q' ∈ d.questions,
          d.caseId ++ "." ++ q'.id = c.caseId ++ "." ++ q.id → d = c) →
        (Bundle.ofCases b.cases).Keeps e.reference (c.caseId ++ "." ++ q.id ++ ".text") q.text := by
  subst hb
  constructor
  · intro c hc
    refine ⟨Manuscript.keeps_ofChapters hc .title ?_, fun n hn => ⟨fun hown => ?_, ?_⟩⟩
    · intro d hd text' hplace
      obtain ⟨hnumber, _⟩ := Chapter.holds_title_iff.mp hplace
      exact List.inj_on_of_nodup_map Manuscript.nodup_number_chapters_compile hd hc hnumber
    · refine Manuscript.keeps_ofChapters hc (.text hn) fun d hd text' hplace => hown d hd ?_
      obtain ⟨n', hn', hid, _⟩ := Chapter.holds_text_iff.mp hplace
      exact List.mem_map.mpr ⟨n', hn', hid⟩
    · intro i o ho hown
      refine Manuscript.keeps_ofChapters hc (.option hn ho) fun d hd text' hplace => ?_
      obtain ⟨n', hn', hid, hoption⟩ := Chapter.holds_option_iff.mp hplace
      obtain ⟨o', ho', _⟩ := Option.map_eq_some_iff.mp hoption
      exact hown d hd n' hn' hid (List.getElem?_eq_some_iff.mp ho').1
  · intro c hc
    have hname : ∀ {d : Case} {place place' : CasePlace} {text : Translations},
        d.Holds place' text → place'.key = place.key → (∀ case id, place ≠ .question case id) →
        d.caseId = place.case := by
      intro d place place' text hplace hkey hkind
      rw [← CasePlace.eq_of_key_eq hkey hkind, hplace.case_eq]
    refine ⟨fun hown => ⟨?_, ?_, ?_⟩, fun i hint hhint hown => ?_, fun q hq hown => ?_⟩
    · exact Manuscript.keeps_ofCases hc .title fun d hd _ _ hplace hkey =>
        hown d hd (hname hplace hkey (by simp))
    · exact Manuscript.keeps_ofCases hc .scenario fun d hd _ _ hplace hkey =>
        hown d hd (hname hplace hkey (by simp))
    · exact Manuscript.keeps_ofCases hc .solution fun d hd _ _ hplace hkey =>
        hown d hd (hname hplace hkey (by simp))
    · refine Manuscript.keeps_ofCases hc (.hint hhint) fun d hd place' text' hplace hkey => ?_
      obtain rfl := CasePlace.eq_of_key_eq hkey (by simp)
      obtain ⟨hcase, hhint'⟩ := Case.holds_hint_iff.mp hplace
      exact hown d hd hcase (List.getElem?_eq_some_iff.mp hhint').1
    · refine Manuscript.keeps_ofCases hc (.question hq) fun d hd place' text' hplace hkey => ?_
      obtain ⟨case, id, rfl, hsame⟩ := CasePlace.key_eq_question_iff.mp hkey
      obtain ⟨rfl, q', hq', rfl, _⟩ := Case.holds_question_iff.mp hplace
      exact hown d hd q' hq' hsame

/-- The nights with names of their own for every node, and one case. -/
theorem keeps_of_build_nightsAndCase :
    ∃ b, nightsAndCase.build ⟨"english", none⟩ = b ∧
      (Bundle.ofChapters b.chapters).Keeps "english" "chapter.1.title"
        (english "The first night") ∧
      (Bundle.ofChapters b.chapters).Keeps "english" "WHO.text" (english "Who are you?") ∧
      (Bundle.ofChapters b.chapters).Keeps "english" "WHO.option.1" (english "scholar") ∧
      (Bundle.ofCases b.cases).Keeps "english" "CASE_007.solution"
        (english "He had wrecked a ship.") ∧
      (Bundle.ofCases b.cases).Keeps "english" "CASE_007.SHIP.text"
        (english "Was there a ship?") := by
  obtain ⟨first, second, hfirst, hsecond, hchapters, hcases⟩ := compile_nightsAndCase
  have hslots : ∃ ch, firstNight.compile (twoNights.editionOf ⟨"english", none⟩) = .ok ch ∧
      ch.number = 1 ∧ ch.title = english "The first night" ∧
      ∃ n ∈ ch.nodes, n.id = "WHO" ∧ n.text = english "Who are you?" ∧
        ∃ o, n.next.options[1]? = some o ∧ o.text = english "scholar" :=
    ⟨_, rfl, rfl, rfl, _, .tail _ (.head _), rfl, rfl, _, rfl, rfl⟩
  have hother : ∃ ch, secondNight.compile (twoNights.editionOf ⟨"english", none⟩) = .ok ch ∧
      "WHO" ∉ ch.ids := ⟨_, rfl, by decide⟩
  obtain ⟨ch, hch, hnumber, htitle, n, hn, hid, htext, o, ho, hoption⟩ := hslots
  obtain rfl := Except.ok.inj (hch.symm.trans hfirst)
  obtain ⟨ch', hch', hnot⟩ := hother
  obtain rfl := Except.ok.inj (hch'.symm.trans hsecond)
  obtain ⟨hkeepsChapters, hkeepsCases⟩ := keeps_of_build ⟨"english", none⟩ nightsAndCase rfl
  obtain ⟨hkeepsTitle, hkeepsNodes⟩ := hkeepsChapters ch (by simp [Manuscript.build, hchapters])
  obtain ⟨hkeepsText, hkeepsOption⟩ := hkeepsNodes n hn
  obtain ⟨hkeepsOutline, _, hkeepsQuestions⟩ :=
    hkeepsCases lighthouse.assemble (by simp [Manuscript.build, hcases])
  have hown : ∀ d ∈ (nightsAndCase.build ⟨"english", none⟩).chapters, "WHO" ∈ d.ids → d = ch := by
    intro d hd hwho
    have heither : d = ch ∨ d = ch' := by simpa [Manuscript.build, hchapters] using hd
    rcases heither with rfl | rfl
    · rfl
    · exact absurd hwho hnot
  have honly : ∀ d ∈ (nightsAndCase.build ⟨"english", none⟩).cases, d = lighthouse.assemble := by
    simp [Manuscript.build, hcases]
  rw [hnumber, htitle] at hkeepsTitle
  rw [hid, htext] at hkeepsText
  have hkeepsOption := hkeepsOption 1 o ho
  rw [hid, hoption] at hkeepsOption
  refine ⟨_, rfl, hkeepsTitle, hkeepsText hown, hkeepsOption ?_, ?_, ?_⟩
  · exact fun d hd n' hn' hid' _ => hown d hd (List.mem_map.mpr ⟨n', hn', hid'⟩)
  · exact (hkeepsOutline fun d hd _ => honly d hd).2.2
  · exact hkeepsQuestions _ (.head _) fun d hd _ _ _ => honly d hd

/-- Two nights with a node of one name. -/
def sharedName : Manuscript where
  chapters := [firstNight, { secondNight with
    prologue := secondNight.prologue ++
      [{ id := some "WHO", kind := some "dialogue", text := english "Who is there?" }] }]

theorem plain_sharedName : sharedName.Plain ⟨"english", none⟩ 1 2 where
  rejected := rfl
  cases := rfl
  chapters := by simp [sharedName]
  accepted := by
    simp only [sharedName, List.forall_mem_cons]
    exact ⟨⟨_, by rfl⟩, ⟨_, by rfl⟩, by simp⟩
  distinct := by decide
  contiguous n := by
    simp [sharedName, firstNight, secondNight]
    omega
  plain := by
    simp only [sharedName, List.forall_mem_cons]
    exact ⟨⟨by decide, by decide, by decide⟩, ⟨by decide, by decide, by decide⟩, by simp⟩

/-- Nodes of one name share a key, and the text of one of them is lost without an error. -/
theorem lost_of_sharedName : (sharedName.build ⟨"english", none⟩).report.errors = [] ∧
    ¬ ∀ c ∈ (sharedName.build ⟨"english", none⟩).chapters, ∀ n ∈ c.nodes, ∀ language wording,
      n.text[language]? = some wording →
        (Bundle.ofChapters (sharedName.build ⟨"english", none⟩).chapters).get? (n.id ++ ".text")
          language = some wording := by
  have hreport := plain_sharedName.report_of_lastChapter_none rfl
  refine ⟨by rw [hreport]; rfl, fun h => ?_⟩
  have hwho : ∀ (draft : ChapterDraft) (wording : String), draft ∈ sharedName.chapters →
      (∃ ch, draft.compile (sharedName.editionOf ⟨"english", none⟩) = .ok ch ∧
        ∃ n ∈ ch.nodes, n.id = "WHO" ∧ n.text = english wording) →
      (Bundle.ofChapters (sharedName.build ⟨"english", none⟩).chapters).get? "WHO.text" "english" =
        some wording := by
    intro draft wording hdraft ⟨ch, hcompile, n, hn, hid, htext⟩
    obtain ⟨ch', hmem, hcompile'⟩ := plain_sharedName.exists_mem_chapters_build hdraft
    obtain rfl := Except.ok.inj (hcompile.symm.trans hcompile')
    have hkept := h ch hmem n hn "english" wording (by simp [htext, english])
    rwa [hid] at hkept
  have hfirst := hwho _ "Who are you?" (.head _) ⟨_, rfl, _, .tail _ (.head _), rfl, rfl⟩
  have hsecond := hwho _ "Who is there?" (.tail _ (.head _))
    ⟨_, rfl, _, .tail _ (.head _), rfl, rfl⟩
  rw [hfirst] at hsecond
  simp at hsecond

end BranchingStory
