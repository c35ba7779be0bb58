import Mathlib.Data.String.Basic
import BranchingStory.Proofs.Locale.Parents
import BranchingStory.Results

/-!
# Registries that are built

What a registry holds once it is built: an entry for each language (`get?_of_build`), with a
chain that ends with the reference language (`getLast?_chain_of_build`).  An unregistered
language is looked up like the reference language, so its chain ends there as well.  If the codes
and the reference language are in order but no registry is built, the parents of some language are
at fault (`exists_fault_of_entries`).
-/

namespace BranchingStory.Registry

variable {reference code : String} {languages : List Language} {table : LanguageTable}
  {l : Language} {entry : LocaleEntry} {r : Registry}

/-- A language has an entry exactly if its climb succeeds. -/
theorem entryOf_eq_ok_iff : entryOf table reference l = .ok entry ↔
    ∃ c, climb table l = .ok c ∧ entry = ⟨l.code, l.displayName, l.direction,
      if c.current.code = reference then c.passed else c.passed ++ [reference]⟩ := by
  rw [entryOf]
  cases climb table l with
  | error e => simp [Except.map]
  | ok c => simp [Except.map, eq_comm]

theorem entryOf_eq_error_iff {e : RegistryError} :
    entryOf table reference l = .error e ↔ climb table l = .error e := by
  rw [entryOf]
  cases climb table l with
  | error e => simp [Except.map]
  | ok c => simp [Except.map]

/-- The entry of a language keeps its code. -/
theorem code_of_entryOf (h : entryOf table reference l = .ok entry) : entry.code = l.code := by
  obtain ⟨_, _, rfl⟩ := entryOf_eq_ok_iff.mp h
  rfl

/-- The chain of a language ends with the reference language. -/
theorem getLast?_chain_of_entryOf (hcodes : (languages.map Language.code).Nodup)
    (hl : l ∈ languages) (h : entryOf (tableOf languages) reference l = .ok entry) :
    entry.chain.getLast? = some reference := by
  obtain ⟨c, hclimb, rfl⟩ := entryOf_eq_ok_iff.mp h
  dsimp only
  split
  · rename_i hlast
    rw [(lineage_of_climb hcodes hl hclimb).1.getLast?_eq, hlast]
  · exact List.getLast?_concat

/-- The languages that stand before one in a table are those whose codes come before. -/
theorem mem_before_of_lt (hcodes : (languages.map Language.code).Nodup)
    {before after : List Language} (heq : (tableOf languages).values = before ++ l :: after)
    {l' : Language} (hl' : l' ∈ languages) (hlt : l'.code < l.code) : l' ∈ before := by
  have hordered : ((tableOf languages).values.map Language.code).Pairwise
      fun a b => compare a b = .lt := by
    rw [map_code_values_tableOf hcodes]
    exact Std.ExtTreeMap.ordered_keys
  rw [heq, List.pairwise_map, List.pairwise_append] at hordered
  have hmem := (mem_values_tableOf hcodes).mpr hl'
  rw [heq, List.mem_append, List.mem_cons] at hmem
  rcases hmem with hbefore | rfl | hafter
  · exact hbefore
  · exact absurd hlt (lt_irrefl _)
  · have hgt := List.rel_of_pairwise_cons hordered.2.1 hafter
    exact absurd (compare_lt_iff_lt.mp hgt) (lt_asymm hlt)

/-- If the entries cannot be worked out, a language is at fault, and none before it. -/
theorem exists_fault_of_entries (hcodes : (languages.map Language.code).Nodup) {e : RegistryError}
    (h : (tableOf languages).values.mapM (entryOf (tableOf languages) reference) = .error e) :
    ∃ l ∈ languages,
      (∀ l' ∈ languages, l'.code < l.code → ∃ c, climb (tableOf languages) l' = .ok c) ∧
        Fault languages l.code e := by
  obtain ⟨before, l, after, heq, hbefore, hl⟩ := exists_of_mapM_eq_error h
  have hmem : l ∈ languages := by
    rw [← mem_values_tableOf hcodes, heq]
    simp
  refine ⟨l, hmem, fun l' hl' hlt => ?_,
    fault_of_climb hcodes hmem (entryOf_eq_error_iff.mp hl)⟩
  obtain ⟨entry, hentry⟩ := hbefore l' (mem_before_of_lt hcodes heq hl' hlt)
  obtain ⟨c, hclimb, _⟩ := entryOf_eq_ok_iff.mp hentry
  exact ⟨c, hclimb⟩

/-- Building fails at a repeated code or at the reference language, or comes to the entries. -/
theorem build_cases (reference : String) (languages : List Language) :
    (∃ code, firstRepeat? (languages.map Language.code) = some code ∧
      build reference languages = .error (.duplicateCode code)) ∨
    ((languages.map Language.code).Nodup ∧ reference ∉ languages.map Language.code ∧
      build reference languages = .error (.missingReference reference)) ∨
    ((languages.map Language.code).Nodup ∧ (∃ parent, FallsBack languages reference parent) ∧
      build reference languages = .error (.referenceHasParent reference)) ∨
    ((languages.map Language.code).Nodup ∧
      (∃ l ∈ languages, l.code = reference ∧ l.parent = none) ∧
      build reference languages =
        ((tableOf languages).values.mapM (entryOf (tableOf languages) reference)).map
          fun entries => ⟨reference, .ofList (entries.map fun entry => (entry.code, entry))⟩) := by
  rw [build]
  cases hrepeat : firstRepeat? (languages.map Language.code) with
  | some code => exact .inl ⟨code, rfl, rfl⟩
  | none =>
      have hcodes := firstRepeat?_eq_none_iff.mp hrepeat
      dsimp only
      cases hroot : (tableOf languages)[reference]? with
      | none => exact .inr (.inl ⟨hcodes, (getElem?_tableOf_eq_none_iff hcodes).mp hroot, rfl⟩)
      | some root =>
          obtain ⟨hmem, hcode⟩ := (getElem?_tableOf hcodes).mp hroot
          cases hparent : root.parent with
          | some parent =>
              refine .inr (.inr (.inl ⟨hcodes, ⟨parent, root, hmem, hcode, hparent⟩, ?_⟩))
              simp [hparent]
          | none =>
              refine .inr (.inr (.inr ⟨hcodes, ⟨root, hmem, hcode, hparent⟩, ?_⟩))
              simp [hparent]

/-- A registry is built exactly if no code repeats, the reference language is there and has no
parent, and every language has an entry. -/
theorem build_eq_ok_iff :
    build reference languages = .ok r ↔
      (languages.map Language.code).Nodup ∧
      (∃ l ∈ languages, l.code = reference ∧ l.parent = none) ∧
      ∃ entries : List LocaleEntry,
        (tableOf languages).values.map (entryOf (tableOf languages) reference) =
          entries.map .ok ∧
        r = ⟨reference, .ofList (entries.map fun entry => (entry.code, entry))⟩ := by
  rcases build_cases reference languages with ⟨code, hrepeat, hbuild⟩ |
    ⟨_, habsent, hbuild⟩ | ⟨hcodes, ⟨parent, hfalls⟩, hbuild⟩ | ⟨hcodes, hroot, hbuild⟩
  · refine iff_of_false (by simp [hbuild]) fun h => ?_
    rw [firstRepeat?_eq_none_iff.mpr h.1] at hrepeat
    cases hrepeat
  · refine iff_of_false (by simp [hbuild]) ?_
    rintro ⟨_, ⟨l, hl, rfl, _⟩, _⟩
    exact habsent (List.mem_map_of_mem hl)
  · refine iff_of_false (by simp [hbuild]) ?_
    rintro ⟨_, ⟨l, hl, rfl, hparent⟩, _⟩
    rw [hfalls.parent_eq hcodes hl] at hparent
    cases hparent
  · rw [hbuild, and_iff_right hcodes, and_iff_right hroot]
    simp only [← mapM_eq_ok_iff]
    cases (tableOf languages).values.mapM (entryOf (tableOf languages) reference) with
    | error e => simp [Except.map]
    | ok entries => simp [Except.map, eq_comm]

theorem reference_of_build (h : build reference languages = .ok r) : r.reference = reference := by
  obtain ⟨_, _, _, _, rfl⟩ := build_eq_ok_iff.mp h
  rfl

/-- A built registry has an entry for each of its languages, and no other. -/
theorem get?_of_build (h : build reference languages = .ok r) :
    r.get? code = some entry ↔
      ∃ l ∈ languages, l.code = code ∧ entryOf (tableOf languages) reference l = .ok entry := by
  obtain ⟨hnodup, _, entries, hok, rfl⟩ := build_eq_ok_iff.mp h
  have hmem : ∀ {entry}, entry ∈ entries ↔
      ∃ l ∈ languages, entryOf (tableOf languages) reference l = .ok entry := by
    intro entry
    have hresult : entry ∈ entries ↔ Except.ok entry ∈
        (tableOf languages).values.map (entryOf (tableOf languages) reference) := by
      rw [hok, List.mem_map]
      simp
    simp only [hresult, List.mem_map, mem_values_tableOf hnodup]
  have hsuccesses : successes ((tableOf languages).values.map
      (entryOf (tableOf languages) reference)) = entries := by
    rw [hok, successes_map_ok]
  have hcodes : (entries.map LocaleEntry.code).Nodup := by
    rw [← hsuccesses]
    refine List.Nodup.sublist (map_successes_sublist (fun _ _ => code_of_entryOf) _) ?_
    rw [map_code_values_tableOf hnodup]
    exact Std.ExtTreeMap.nodup_keys
  have hkeys : (entries.map fun entry => (entry.code, entry)).map Prod.fst =
      entries.map LocaleEntry.code := List.map_map
  rw [get?, getElem?_ofList_eq_some_iff (hkeys ▸ hcodes), List.mem_map]
  constructor
  · rintro ⟨entry', hentry, heq⟩
    obtain ⟨rfl, rfl⟩ := Prod.mk.inj heq
    obtain ⟨l, hl, hok⟩ := hmem.mp hentry
    exact ⟨l, hl, (code_of_entryOf hok).symm, hok⟩
  · rintro ⟨l, hl, rfl, hentry⟩
    exact ⟨entry, hmem.mpr ⟨l, hl, hentry⟩, by rw [code_of_entryOf hentry]⟩

/-- In a built registry every language has an entry. -/
theorem exists_entryOf_of_build (h : build reference languages = .ok r) (hl : l ∈ languages) :
    ∃ entry, entryOf (tableOf languages) reference l = .ok entry := by
  obtain ⟨hnodup, _, entries, hok, _⟩ := build_eq_ok_iff.mp h
  have hmem := List.mem_map_of_mem (f := entryOf (tableOf languages) reference)
    ((mem_values_tableOf hnodup).mpr hl)
  rw [hok] at hmem
  obtain ⟨entry, _, hentry⟩ := List.mem_map.mp hmem
  exact ⟨entry, hentry.symm⟩

/-- Every chain of a built registry ends with the reference language, that of a language that is
not registered too. -/
theorem getLast?_chain_of_build (h : build reference languages = .ok r) (code : String) :
    (r.chain code).getLast? = some reference := by
  have hlast : ∀ {code entry}, r.get? code = some entry →
      entry.chain.getLast? = some reference := by
    intro code entry hentry
    obtain ⟨l, hl, _, hok⟩ := (get?_of_build h).mp hentry
    exact getLast?_chain_of_entryOf (build_eq_ok_iff.mp h).1 hl hok
  rw [chain, reference_of_build h]
  cases hcode : r.get? code with
  | some entry => exact hlast hcode
  | none =>
      -- The reference language is registered.
      obtain ⟨_, ⟨root, hroot, hrootCode, _⟩, _⟩ := build_eq_ok_iff.mp h
      obtain ⟨entry, hentry⟩ := exists_entryOf_of_build h hroot
      have hreference := (get?_of_build h).mpr ⟨root, hroot, hrootCode, hentry⟩
      rw [hreference]
      exact hlast hreference

end BranchingStory.Registry
