import BranchingStory.Proofs.Locale.Audit
import BranchingStory.Proofs.Locale.Bundle

/-!
# Texts by language and by key

A translator keeps the texts of a language together, and a bundle keeps the wordings of a text
together.  `Bundle.ofLanguages` turns the one into the other.  It inserts each wording once, and
what comes out does not depend on the order: a bundle that is filled wording by wording is
determined by what was inserted (`Bundle.get?_insertAll`, `Bundle.filled_insertAll`), since it has
no text without a wording (`Bundle.Filled.ext`).
-/

namespace BranchingStory

namespace Bundle

variable {b b' : Bundle} {surface key language wording : String}
  {wordings : List (String × String × String)} {f : String → String → Option String}

/-! ## Bundles without empty texts -/

/-- Every text of the bundle has a wording. -/
def Filled (b : Bundle) : Prop :=
  ∀ key ∈ b.entries, ∃ language, (b.get? key language).isSome = true

theorem Filled.ne_empty (h : b.Filled) {text : Translations} (htext : b.entries[key]? = some text) :
    text ≠ ∅ := by
  rintro rfl
  have hkey : key ∈ b.entries := by
    rw [Std.ExtTreeMap.mem_iff_isSome_getElem?, htext]
    rfl
  obtain ⟨language, hsome⟩ := h key hkey
  simp [get?, htext] at hsome

theorem Filled.mem_entries_iff (h : b.Filled) :
    key ∈ b.entries ↔ ∃ language, (b.get? key language).isSome = true :=
  ⟨h key, fun ⟨_, hsome⟩ => mem_entries_of_isSome_get? hsome⟩

/-- Bundles without empty texts that answer the same are the same. -/
theorem Filled.ext (h : b.Filled) (h' : b'.Filled) (hsurface : b.surface = b'.surface)
    (hget : ∀ key language, b.get? key language = b'.get? key language) : b = b' := by
  have hentries : b.entries = b'.entries := by
    refine Std.ExtTreeMap.ext_getElem? fun key => ?_
    have hmem : key ∈ b.entries ↔ key ∈ b'.entries := by
      simp only [h.mem_entries_iff, h'.mem_entries_iff, hget]
    by_cases hkey : key ∈ b.entries
    · have htexts := Std.ExtTreeMap.getElem?_eq_some_getElem hkey
      have htexts' := Std.ExtTreeMap.getElem?_eq_some_getElem (hmem.mp hkey)
      rw [htexts, htexts', Option.some.injEq]
      refine Std.ExtTreeMap.ext_getElem? fun language => ?_
      simpa [get?, htexts, htexts'] using hget key language
    · rw [Std.ExtTreeMap.getElem?_eq_none hkey, Std.ExtTreeMap.getElem?_eq_none (mt hmem.mpr hkey)]
  cases b
  cases b'
  simp_all

/-! ## Filling wording by wording -/

/-- The bundle after insertions, each of a key, a language and a wording. -/
def insertAll (b : Bundle) (wordings : List (String × String × String)) : Bundle :=
  wordings.foldl (fun b (key, language, wording) => b.insert key language wording) b

/-- Insertions fill a bundle with texts of one wording each. -/
theorem insertAll_eq_ofSlots : insertAll { surface := surface } wordings =
    ofSlots surface (wordings.map fun (key, language, wording) =>
      (key, (∅ : Translations).insert language wording)) := by
  rw [ofSlots, List.foldl_map]
  rfl

theorem mem_of_get?_insertAll
    (h : (insertAll { surface := surface } wordings).get? key language = some wording) :
    (key, language, wording) ∈ wordings := by
  rw [insertAll_eq_ofSlots] at h
  obtain ⟨_, hslot, hkey, hwording⟩ := exists_slot_of_get?_ofSlots h
  obtain ⟨⟨key', language', wording'⟩, hmem, rfl⟩ := List.mem_map.mp hslot
  rw [Std.ExtTreeMap.getElem?_insert] at hwording
  split at hwording
  · rename_i hlanguage
    obtain rfl : key' = key := hkey
    obtain rfl : language' = language := Std.LawfulEqOrd.compare_eq_iff_eq.mp hlanguage
    obtain rfl := Option.some.inj hwording
    exact hmem
  · simp at hwording

theorem isSome_get?_insertAll (h : (key, language, wording) ∈ wordings) :
    ((insertAll { surface := surface } wordings).get? key language).isSome = true := by
  rw [insertAll_eq_ofSlots, isSome_get?_ofSlots]
  exact ⟨_, List.mem_map.mpr ⟨_, h, rfl⟩, rfl, by simp⟩

/-- If one wording was inserted for each key and language, or several times the same, the bundle
answers with it. -/
theorem get?_insertAll
    (h : ∀ key language wording, (key, language, wording) ∈ wordings ↔
      f key language = some wording) (key language : String) :
    (insertAll { surface := surface } wordings).get? key language = f key language := by
  refine Option.ext fun wording => ⟨fun hget => (h _ _ _).mp (mem_of_get?_insertAll hget), ?_⟩
  intro hwording
  have hsome : ((insertAll { surface := surface } wordings).get? key language).isSome = true :=
    isSome_get?_insertAll ((h _ _ _).mpr hwording)
  obtain ⟨wording', hget⟩ := Option.isSome_iff_exists.mp hsome
  rw [hget, ← hwording, ← (h _ _ _).mp (mem_of_get?_insertAll hget)]

/-- Insertions leave no text without a wording. -/
theorem filled_insertAll : (insertAll { surface := surface } wordings).Filled := by
  intro key hkey
  rw [insertAll_eq_ofSlots, mem_entries_ofSlots] at hkey
  obtain ⟨_, hslot, rfl⟩ := hkey
  obtain ⟨⟨key, language, wording⟩, hmem, rfl⟩ := List.mem_map.mp hslot
  exact ⟨language, isSome_get?_insertAll hmem⟩

theorem surface_insertAll : (insertAll b wordings).surface = b.surface := by
  rw [insertAll]
  induction wordings generalizing b with
  | nil => rfl
  | cons first rest ih => rw [List.foldl_cons, ih]; rfl

/-! ## Transposition -/

/-- The wording that the texts of each language have under a key. -/
def wording? (byLanguage : Std.ExtTreeMap String Translations compare) (key language : String) :
    Option String :=
  byLanguage[language]?.bind (·[key]?)

variable {byLanguage : Std.ExtTreeMap String Translations compare}

theorem wording?_eq_some_iff : wording? byLanguage key language = some wording ↔
    ∃ texts, byLanguage[language]? = some texts ∧ texts[key]? = some wording :=
  Option.bind_eq_some_iff

theorem isSome_wording?_iff : (wording? byLanguage key language).isSome = true ↔
    ∃ texts, byLanguage[language]? = some texts ∧ key ∈ texts := by
  rw [wording?]
  cases byLanguage[language]? <;> simp

/-- The wordings of each language, as insertions. -/
def wordingsOf (byLanguage : Std.ExtTreeMap String Translations compare) :
    List (String × String × String) :=
  byLanguage.toList.flatMap fun (language, texts) =>
    texts.toList.map fun (key, wording) => (key, language, wording)

theorem mem_wordingsOf_iff : (key, language, wording) ∈ wordingsOf byLanguage ↔
    wording? byLanguage key language = some wording := by
  simp only [wordingsOf, List.mem_flatMap, List.mem_map, Prod.exists, wording?_eq_some_iff,
    Std.ExtTreeMap.mem_toList_iff_getElem?_eq_some, Prod.mk.injEq]
  constructor
  · rintro ⟨_, texts, htexts, _, _, hwording, rfl, rfl, rfl⟩
    exact ⟨texts, htexts, hwording⟩
  · rintro ⟨texts, htexts, hwording⟩
    exact ⟨language, texts, htexts, key, wording, hwording, rfl, rfl, rfl⟩

/-- One language after the other, and one wording of it after the other. -/
theorem ofLanguages_eq_insertAll :
    ofLanguages surface byLanguage = insertAll { surface := surface } (wordingsOf byLanguage) := by
  simp only [ofLanguages, insertAll, wordingsOf, Std.ExtTreeMap.foldl_eq_foldl_toList,
    List.foldl_flatMap, List.foldl_map]

/-- The bundle has the texts of each language by key, and nothing else. -/
structure Transposes (b : Bundle) (surface : String)
    (byLanguage : Std.ExtTreeMap String Translations compare) : Prop where
  surface_eq : b.surface = surface
  get?_eq : ∀ key language, b.get? key language = byLanguage[language]?.bind (·[key]?)
  languages : ∀ language, language ∈ b.languages ↔
    ∃ texts, byLanguage[language]? = some texts ∧ texts ≠ ∅
  keysFor : ∀ language, Enumerates (b.keysFor language) fun key =>
    ∃ texts, byLanguage[language]? = some texts ∧ key ∈ texts
  filled : ∀ (key : String) (text : Translations), b.entries[key]? = some text → text ≠ ∅
  /-- The wordings may be inserted in any order, and again. -/
  inserted : ∀ wordings : List (String × String × String),
    (∀ key language wording, (key, language, wording) ∈ wordings ↔
      ∃ texts, byLanguage[language]? = some texts ∧ texts[key]? = some wording) →
    insertAll { surface := surface } wordings = b

/-- A language has some text exactly if its texts are not empty. -/
theorem exists_isSome_wording?_iff :
    (∃ key, (wording? byLanguage key language).isSome = true) ↔
      ∃ texts, byLanguage[language]? = some texts ∧ texts ≠ ∅ := by
  simp only [isSome_wording?_iff, Ne, Std.ExtTreeMap.eq_empty_iff_forall_not_mem, not_forall,
    not_not]
  constructor
  · rintro ⟨key, texts, htexts, hkey⟩
    exact ⟨texts, htexts, key, hkey⟩
  · rintro ⟨texts, htexts, key, hkey⟩
    exact ⟨key, texts, htexts, hkey⟩

end Bundle

/-- The bundle of the texts of each language is their transposition. -/
theorem transposes_ofLanguages (surface : String)
    (byLanguage : Std.ExtTreeMap String Translations compare) :
    (Bundle.ofLanguages surface byLanguage).Transposes surface byLanguage := by
  have hget : ∀ key language, (Bundle.insertAll { surface := surface }
      (Bundle.wordingsOf byLanguage)).get? key language =
        Bundle.wording? byLanguage key language :=
    Bundle.get?_insertAll fun _ _ _ => Bundle.mem_wordingsOf_iff
  rw [Bundle.ofLanguages_eq_insertAll]
  exact
    { surface_eq := Bundle.surface_insertAll
      get?_eq := hget
      languages := fun language => by
        rw [Bundle.mem_languages_iff]
        simp only [hget, Bundle.exists_isSome_wording?_iff]
      keysFor := fun language => Bundle.enumerates_keysFor.congr fun key => by
        rw [hget, Bundle.isSome_wording?_iff]
      filled := fun key text => Bundle.filled_insertAll.ne_empty
      inserted := fun wordings hwordings => by
        refine Bundle.filled_insertAll.ext Bundle.filled_insertAll ?_ fun key language => ?_
        · rw [Bundle.surface_insertAll, Bundle.surface_insertAll]
        · rw [hget, Bundle.get?_insertAll fun key language wording =>
            (hwordings key language wording).trans Bundle.wording?_eq_some_iff.symm] }

end BranchingStory
