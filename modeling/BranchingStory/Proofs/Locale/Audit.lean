import Mathlib.Data.List.TFAE
import BranchingStory.Locale.Audit
import BranchingStory.Proofs.Enumeration
import BranchingStory.Proofs.Lookup

/-!
# Audits

An audit covers the languages that are registered or have some text, without the reference
language (`Bundle.mem_auditedLanguages_iff`).  For each of them it lists the texts that the
reference language has and the language lacks (`Bundle.getElem?_missing_audit`,
`Bundle.mem_gaps_iff`).

All figures of an audit count the same list, that of its gaps with their languages
(`Audit.pairs`).  So they agree in every audit, and one of them says that nothing is missing
exactly if all do (`Audit.complete_tfae`).  What an audit of a bundle lists and counts are then
the texts of the bundle (`audit_exact`).
-/

namespace BranchingStory

variable {b : Bundle} {r : Registry} {reference language key : String}

/-! ## The languages and the gaps of a bundle -/

namespace Bundle

/-- A language of a bundle is one that some text has. -/
theorem mem_languages_iff :
    language ∈ b.languages ↔ ∃ key, (b.get? key language).isSome = true := by
  simp only [languages, Std.ExtTreeSet.mem_ofList, List.contains_iff_mem, List.mem_flatMap,
    mem_values_iff, Std.ExtTreeMap.mem_keys, Std.ExtTreeMap.mem_iff_isSome_getElem?, get?]
  constructor
  · rintro ⟨text, ⟨key, hkey⟩, hlanguage⟩
    exact ⟨key, by simpa [hkey] using hlanguage⟩
  · rintro ⟨key, hlanguage⟩
    cases hkey : b.entries[key]? with
    | none => simp [hkey] at hlanguage
    | some text => exact ⟨text, ⟨key, hkey⟩, by simpa [hkey] using hlanguage⟩

theorem mem_auditedLanguages_iff :
    language ∈ b.auditedLanguages r reference ↔ language ≠ reference ∧
      (r.contains language = true ∨ ∃ key, (b.get? key language).isSome = true) := by
  rw [auditedLanguages, Std.ExtTreeSet.mem_toList, Std.ExtTreeSet.mem_erase,
    Std.ExtTreeSet.mem_insertMany_list, mem_languages_iff, Registry.codes, List.contains_iff_mem,
    Std.ExtTreeMap.mem_keys, Registry.contains, Std.ExtTreeMap.contains_iff_mem, or_comm]
  exact and_congr_left fun _ => (not_congr Std.LawfulEqOrd.compare_eq_iff_eq).trans ne_comm

theorem nodup_auditedLanguages : (b.auditedLanguages r reference).Nodup := by
  refine Std.ExtTreeSet.distinct_toList.imp fun hne heq => hne ?_
  exact Std.LawfulEqOrd.compare_eq_iff_eq.mpr heq

theorem mem_keys_filter_iff {f : Translations → Bool} :
    key ∈ (b.entries.filter fun _ text => f text).keys ↔
      ∃ text, b.entries[key]? = some text ∧ f text = true := by
  rw [Std.ExtTreeMap.mem_keys, Std.ExtTreeMap.mem_filter]
  constructor
  · rintro ⟨hkey, htext⟩
    exact ⟨_, Std.ExtTreeMap.getElem?_eq_some_getElem hkey, htext⟩
  · rintro ⟨text, hget, htext⟩
    obtain ⟨hkey, rfl⟩ := Std.ExtTreeMap.getElem?_eq_some_iff.mp hget
    exact ⟨hkey, htext⟩

/-- The keys of a language are those of the texts that it has. -/
theorem enumerates_keysFor :
    Enumerates (b.keysFor language) fun key => (b.get? key language).isSome = true where
  ordered := (enumerates_keys _).ordered
  mem_iff key := by
    rw [keysFor, mem_keys_filter_iff, get?]
    cases b.entries[key]? <;> simp

/-- A gap is a text that the reference language has and the language lacks. -/
theorem enumerates_gaps : Enumerates (b.gaps reference language) fun key =>
    (b.get? key reference).isSome = true ∧ b.get? key language = none := by
  refine (enumerates_keysFor.filter _).congr fun key => and_congr_right fun _ => ?_
  have hkey : key ∈ b.keysFor language ↔ (b.get? key language).isSome = true :=
    enumerates_keysFor.mem_iff key
  rw [Bool.not_eq_true', ← Bool.not_eq_true, List.contains_iff_mem, hkey, Bool.not_eq_true,
    Option.isSome_eq_false_iff, Option.isNone_iff_eq_none]

theorem mem_gaps_iff :
    key ∈ b.gaps reference language ↔
      (b.get? key reference).isSome = true ∧ b.get? key language = none :=
  enumerates_gaps.mem_iff key

/-- An audit lists the gaps of each language it covers. -/
theorem getElem?_missing_audit {keys : List String} :
    (b.audit r reference).missing[language]? = some keys ↔
      language ∈ b.auditedLanguages r reference ∧ b.gaps reference language = keys := by
  have hnodup : (((b.auditedLanguages r reference).map fun l => (l, b.gaps reference l)).map
      Prod.fst).Nodup := by
    rw [List.map_map]
    simpa [Function.comp_def] using nodup_auditedLanguages
  rw [audit, getElem?_ofList_eq_some_iff hnodup, List.mem_map]
  constructor
  · rintro ⟨l, hl, heq⟩
    obtain ⟨rfl, rfl⟩ := Prod.mk.inj heq
    exact ⟨hl, rfl⟩
  · rintro ⟨hl, rfl⟩
    exact ⟨language, hl, rfl⟩

/-- A text with a wording is a text of the bundle. -/
theorem mem_entries_of_isSome_get? (h : (b.get? key language).isSome = true) : key ∈ b.entries := by
  rw [Std.ExtTreeMap.mem_iff_isSome_getElem?]
  rw [get?] at h
  exact Option.isSome_of_isSome_bind h

/-- Of the texts of the reference language a language has those that are no gaps. -/
theorem length_gaps_add_length {present : List String} (hpresent : Enumerates present fun key =>
    (b.get? key reference).isSome = true ∧ (b.get? key language).isSome = true) :
    (b.gaps reference language).length + present.length = (b.keysFor reference).length :=
  enumerates_keysFor.length_add_length hpresent (enumerates_gaps.congr fun key => by simp)

end Bundle

/-! ## The figures of an audit -/

namespace Audit

variable {a : Audit}

/-- The gaps of an audit, each with its language, by language and then by key. -/
def pairs (a : Audit) : List (String × String) :=
  a.missing.toList.flatMap fun (language, keys) => keys.map (language, ·)

theorem mem_pairs_iff : (language, key) ∈ a.pairs ↔
    ∃ keys, a.missing[language]? = some keys ∧ key ∈ keys := by
  simp only [pairs, List.mem_flatMap, List.mem_map, Prod.exists,
    Std.ExtTreeMap.mem_toList_iff_getElem?_eq_some]
  constructor
  · rintro ⟨language, keys, hkeys, key, hkey, heq⟩
    obtain ⟨rfl, rfl⟩ := Prod.mk.inj heq
    exact ⟨keys, hkeys, hkey⟩
  · rintro ⟨keys, hkeys, hkey⟩
    exact ⟨language, keys, hkeys, key, hkey, rfl⟩

theorem pairs_eq_nil_iff : a.pairs = [] ↔
    ∀ (language : String) (keys : List String), a.missing[language]? = some keys → keys = [] := by
  simp only [pairs, List.flatMap_eq_nil_iff, List.map_eq_nil_iff, Prod.forall,
    Std.ExtTreeMap.mem_toList_iff_getElem?_eq_some]

/-- If the gaps of each language are in order, so are all gaps. -/
theorem pairwise_pairs
    (h : ∀ (language : String) (keys : List String), a.missing[language]? = some keys →
      keys.Pairwise (· < ·)) :
    a.pairs.Pairwise (Prod.Lex (· < ·) (· < ·)) := by
  rw [pairs, List.pairwise_flatMap]
  constructor
  · rintro ⟨language, keys⟩ hmem
    rw [List.pairwise_map]
    exact (h language keys (Std.ExtTreeMap.mem_toList_iff_getElem?_eq_some.mp hmem)).imp
      fun hlt => .right _ hlt
  · refine a.missing.ordered_keys_toList.imp fun {entry entry'} hlt gap hgap gap' hgap' => ?_
    obtain ⟨_, _, rfl⟩ := List.mem_map.mp hgap
    obtain ⟨_, _, rfl⟩ := List.mem_map.mp hgap'
    exact .left _ _ (compare_lt_iff_lt.mp hlt)

/-- There is one diagnostic for each gap. -/
theorem diagnostics_eq :
    a.diagnostics = a.pairs.map fun gap => .missingTranslation a.surface gap.1 gap.2 := by
  simp only [diagnostics, pairs, List.map_flatMap, List.map_map]
  rfl

theorem totalMissing_eq : a.totalMissing = a.pairs.length := by
  simp only [totalMissing, pairs, values_eq_map_snd_toList, List.length_flatten, List.map_map,
    List.length_flatMap, List.length_map]
  rfl

theorem isComplete_iff : a.isComplete = true ↔ a.pairs = [] := by
  simp only [isComplete, pairs_eq_nil_iff, List.all_eq_true, mem_values_iff, List.isEmpty_iff]
  exact ⟨fun h language keys hkeys => h keys ⟨language, hkeys⟩,
    fun h keys ⟨language, hkeys⟩ => h language keys hkeys⟩

theorem incompleteLanguages_eq_nil_iff : a.incompleteLanguages = [] ↔ a.pairs = [] := by
  rw [incompleteLanguages, Std.ExtTreeMap.keys_eq_nil_iff, ← Std.ExtTreeMap.toList_eq_nil_iff,
    Std.ExtTreeMap.toList_filter, List.filter_eq_nil_iff, pairs_eq_nil_iff, Prod.forall]
  simp only [Std.ExtTreeMap.mem_toList_iff_getElem?_eq_some, Bool.not_eq_true, Bool.not_eq_false',
    List.isEmpty_iff]

/-- Of any audit all figures say that nothing is missing, or none does. -/
theorem complete_tfae : [a.isComplete = true, a.incompleteLanguages = [], a.totalMissing = 0,
    a.diagnostics = []].TFAE := by
  refine List.tfae_of_forall (a.pairs = []) _ ?_
  simp only [List.forall_mem_cons, List.not_mem_nil, false_imp_iff, implies_true, and_true]
  refine ⟨isComplete_iff, incompleteLanguages_eq_nil_iff, ?_, ?_⟩
  · rw [totalMissing_eq, List.length_eq_zero_iff]
  · rw [diagnostics_eq, List.map_eq_nil_iff]

/-- If the texts that a language has and those that it lacks are all there are, its share is
that of the former. -/
theorem coverage?_eq {keys : List String} {present : Nat}
    (hkeys : a.missing[language]? = some keys) (hcount : keys.length + present = a.referenceKeys) :
    a.coverage? language = some (if a.referenceKeys = 0 then 100
      else Float.ofNat present * 100 / Float.ofNat a.referenceKeys) := by
  have hpresent : a.referenceKeys - keys.length = present := by omega
  rw [coverage?, hkeys, Option.map_some, percent, hpresent]

end Audit

/-! ## Audits of bundles -/

namespace Bundle

theorem mem_missing_audit_iff : language ∈ (b.audit r reference).missing ↔
    language ∈ b.auditedLanguages r reference := by
  rw [Std.ExtTreeMap.mem_iff_isSome_getElem?, Option.isSome_iff_exists]
  simp only [getElem?_missing_audit]
  simp

theorem enumerates_missing_audit {keys : List String}
    (h : (b.audit r reference).missing[language]? = some keys) : Enumerates keys fun key =>
      (b.get? key reference).isSome = true ∧ b.get? key language = none := by
  obtain ⟨_, rfl⟩ := getElem?_missing_audit.mp h
  exact enumerates_gaps

theorem mem_pairs_audit_iff : (language, key) ∈ (b.audit r reference).pairs ↔
    language ∈ (b.audit r reference).missing ∧
      (b.get? key reference).isSome = true ∧ b.get? key language = none := by
  rw [Audit.mem_pairs_iff, mem_missing_audit_iff]
  simp only [getElem?_missing_audit, and_assoc, exists_and_left, exists_eq_left', mem_gaps_iff]

/-- Of the texts of the reference language each audited language has those that it does not
lack. -/
theorem coverage_audit {keys : List String}
    (h : (b.audit r reference).missing[language]? = some keys) : ∃ present,
    Enumerates present (fun key =>
      (b.get? key reference).isSome = true ∧ (b.get? key language).isSome = true) ∧
    keys.length + present.length = (b.audit r reference).referenceKeys := by
  obtain ⟨_, rfl⟩ := getElem?_missing_audit.mp h
  have hreference : Enumerates (b.keysFor reference) _ := enumerates_keysFor
  have hpresent := hreference.filter fun key => (b.get? key language).isSome
  exact ⟨_, hpresent, length_gaps_add_length hpresent⟩

end Bundle

/-- The audit of a bundle covers the languages that are registered or have some text, it lists
their gaps, and its figures count these. -/
structure Audit.Exact (a : Audit) (b : Bundle) (r : Registry) (reference : String) : Prop where
  surface_eq : a.surface = b.surface
  reference_eq : a.reference = reference
  languages : ∀ language : String, language ∈ a.missing ↔ language ≠ reference ∧
    (r.contains language = true ∨ ∃ key, (b.get? key language).isSome = true)
  missing : ∀ (language : String) (keys : List String), a.missing[language]? = some keys →
    Enumerates keys fun key =>
      (b.get? key reference).isSome = true ∧ b.get? key language = none
  referenceKeys : ∃ keys, Enumerates keys (fun key => (b.get? key reference).isSome = true) ∧
    a.referenceKeys = keys.length
  /-- The share of a language is counted from what it has, and nothing is divided by zero. -/
  coverage : ∀ (language : String) (keys : List String), a.missing[language]? = some keys →
    ∃ present, Enumerates present (fun key =>
      (b.get? key reference).isSome = true ∧ (b.get? key language).isSome = true) ∧
    keys.length + present.length = a.referenceKeys ∧
    a.coverage? language = some (if a.referenceKeys = 0 then 100
      else Float.ofNat present.length * 100 / Float.ofNat a.referenceKeys)
  total : a.totalMissing = a.diagnostics.length
  complete : [a.isComplete = true, a.incompleteLanguages = [], a.totalMissing = 0,
    a.diagnostics = []].TFAE
  diagnostics : ∃ gaps : List (String × String), gaps.Pairwise (Prod.Lex (· < ·) (· < ·)) ∧
    (∀ language key, (language, key) ∈ gaps ↔ language ∈ a.missing ∧
      (b.get? key reference).isSome = true ∧ b.get? key language = none) ∧
    a.diagnostics = gaps.map fun gap => .missingTranslation b.surface gap.1 gap.2

/-- An audit is exact, whatever the bundle, the registry and the reference language. -/
theorem audit_exact (b : Bundle) (r : Registry) (reference : String) :
    (b.audit r reference).Exact b r reference where
  surface_eq := rfl
  reference_eq := rfl
  languages _ := Bundle.mem_missing_audit_iff.trans Bundle.mem_auditedLanguages_iff
  missing _ _ hkeys := Bundle.enumerates_missing_audit hkeys
  referenceKeys := ⟨_, Bundle.enumerates_keysFor, rfl⟩
  coverage language keys hkeys := by
    obtain ⟨present, hpresent, hcount⟩ := Bundle.coverage_audit hkeys
    exact ⟨present, hpresent, hcount, Audit.coverage?_eq hkeys hcount⟩
  total := by rw [Audit.diagnostics_eq, List.length_map, Audit.totalMissing_eq]
  complete := Audit.complete_tfae
  diagnostics := by
    refine ⟨_, Audit.pairwise_pairs fun language keys hkeys => ?_, fun language key => ?_,
      Audit.diagnostics_eq⟩
    · exact (Bundle.enumerates_missing_audit hkeys).ordered
    · exact Bundle.mem_pairs_audit_iff

end BranchingStory
