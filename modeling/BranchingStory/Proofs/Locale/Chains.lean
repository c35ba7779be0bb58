import BranchingStory.Proofs.Locale.Registry

/-!
# Chains of languages

Languages make a registry exactly if their parents lead up to languages without a parent, and the
reference language is one of these (`exists_build_iff`).  The chain of a language is then its
lineage, with the reference language at the end (`Registry.exists_lineage_of_build`).  So the
chain of a language goes on as the chain of its parent (`Registry.chain_of_parent`).
-/

namespace BranchingStory

open Relation (TransGen)

variable {reference code language parent : String} {languages : List Language} {l : Language}
  {r : Registry}

/-- The parents of languages with distinct codes lead up to languages without a parent, and the
reference language is one of these. -/
structure Rooted (reference : String) (languages : List Language) : Prop where
  distinct : (languages.map Language.code).Nodup
  root : ∃ l ∈ languages, l.code = reference ∧ l.parent = none
  known : ∀ l ∈ languages, ∀ parent, l.parent = some parent →
    parent ∈ languages.map Language.code
  acyclic : ∀ code, ¬ TransGen (FallsBack languages) code code

namespace Registry

/-! ## Languages that make a registry -/

/-- Where parents lead up to languages without a parent, no climb fails. -/
theorem Fault.not_rooted {start : String} {e : RegistryError} (h : Fault languages start e) :
    ¬ Rooted reference languages := by
  intro hrooted
  cases h with
  | unknown _ hfalls hunknown =>
      obtain ⟨l, hl, _, hparent⟩ := hfalls
      exact hunknown (hrooted.known l hl _ hparent)
  | circle hendless =>
      obtain ⟨c, _, hcircle⟩ := hendless
      exact hrooted.acyclic c hcircle

theorem exists_build_of_rooted (h : Rooted reference languages) :
    ∃ r, build reference languages = .ok r := by
  cases hentries : (tableOf languages).values.mapM (entryOf (tableOf languages) reference) with
  | ok entries =>
      exact ⟨_, build_eq_ok_iff.mpr ⟨h.distinct, h.root, entries, mapM_eq_ok_iff.mp hentries, rfl⟩⟩
  | error e =>
      obtain ⟨_, _, _, hfault⟩ := exists_fault_of_entries h.distinct hentries
      exact absurd h hfault.not_rooted

/-- The chain of a language is its lineage, with the reference language at the end. -/
theorem exists_lineage_of_build (h : build reference languages = .ok r) (hl : l ∈ languages) :
    ∃ passed last, Lineage languages l passed last ∧ passed.Nodup ∧
      r.chain l.code = if last.code = reference then passed else passed ++ [reference] := by
  have hcodes := (build_eq_ok_iff.mp h).1
  obtain ⟨entry, hentry⟩ := exists_entryOf_of_build h hl
  obtain ⟨c, hclimb, rfl⟩ := entryOf_eq_ok_iff.mp hentry
  obtain ⟨hlineage, hnodup⟩ := lineage_of_climb hcodes hl hclimb
  refine ⟨c.passed, c.current, hlineage, hnodup, ?_⟩
  rw [chain, (get?_of_build h).mpr ⟨l, hl, rfl, hentry⟩]
  rfl

theorem rooted_of_build (h : build reference languages = .ok r) : Rooted reference languages := by
  obtain ⟨hcodes, hroot, _⟩ := build_eq_ok_iff.mp h
  refine ⟨hcodes, hroot, ?_, ?_⟩
  · intro l hl parent hparent
    obtain ⟨_, _, hlineage, _⟩ := exists_lineage_of_build h hl
    cases hlineage with
    | top hnone => rw [hnone] at hparent; cases hparent
    | child hnext hmem =>
        obtain rfl := Option.some.inj (hparent.symm.trans hnext)
        exact List.mem_map_of_mem hmem
  · intro code hcircle
    obtain ⟨parent, ⟨l, hl, rfl, _⟩, _⟩ := (Endless.of_circle hcircle).exists_parent
    obtain ⟨_, _, hlineage, _⟩ := exists_lineage_of_build h hl
    exact hlineage.not_endless hcodes hl (.of_circle hcircle)

/-! ## The codes of a registry -/

theorem isSome_get?_of_build (h : build reference languages = .ok r) :
    (r.get? code).isSome = true ↔ code ∈ languages.map Language.code := by
  rw [List.mem_map, Option.isSome_iff_exists]
  constructor
  · rintro ⟨entry, hentry⟩
    obtain ⟨l, hl, hcode, _⟩ := (get?_of_build h).mp hentry
    exact ⟨l, hl, hcode⟩
  · rintro ⟨l, hl, hcode⟩
    obtain ⟨entry, hentry⟩ := exists_entryOf_of_build h hl
    exact ⟨entry, (get?_of_build h).mpr ⟨l, hl, hcode, hentry⟩⟩

/-- A registry has the codes of its languages. -/
theorem contains_of_build (h : build reference languages = .ok r) :
    r.contains code = true ↔ code ∈ languages.map Language.code := by
  rw [contains, Std.ExtTreeMap.contains_eq_isSome_getElem?, ← isSome_get?_of_build h]
  rfl

theorem contains_eq_false_iff_of_build (h : build reference languages = .ok r) :
    r.contains code = false ↔ code ∉ languages.map Language.code := by
  rw [← Bool.not_eq_true, contains_of_build h]

theorem contains_code_of_build (h : build reference languages = .ok r) (hl : l ∈ languages) :
    r.contains l.code = true :=
  (contains_of_build h).mpr (List.mem_map_of_mem hl)

/-! ## Chains -/

/-- The chain of a language goes on as that of its parent. -/
theorem chain_of_parent (h : build reference languages = .ok r) (hl : l ∈ languages)
    (hparent : l.parent = some parent) : r.chain l.code = l.code :: r.chain parent := by
  have hcodes := (build_eq_ok_iff.mp h).1
  obtain ⟨_, last, hlineage, _, hchain⟩ := exists_lineage_of_build h hl
  cases hlineage with
  | top hnone => rw [hnone] at hparent; cases hparent
  | child hnext hmem hlineage =>
      obtain rfl := Option.some.inj (hparent.symm.trans hnext)
      obtain ⟨_, _, hlineage', _, hchain'⟩ := exists_lineage_of_build h hmem
      obtain ⟨rfl, rfl⟩ := hlineage.unique hcodes hlineage'
      rw [hchain, hchain']
      split <;> rfl

theorem chain_of_top (h : build reference languages = .ok r) (hl : l ∈ languages)
    (hparent : l.parent = none) :
    r.chain l.code = if l.code = reference then [l.code] else [l.code, reference] := by
  obtain ⟨_, last, hlineage, _, hchain⟩ := exists_lineage_of_build h hl
  obtain ⟨rfl, rfl⟩ := hlineage.unique (build_eq_ok_iff.mp h).1 (.top hparent)
  exact hchain

theorem chain_reference (h : build reference languages = .ok r) :
    r.chain reference = [reference] := by
  obtain ⟨root, hroot, rfl, hparent⟩ := (build_eq_ok_iff.mp h).2.1
  rw [chain_of_top h hroot hparent, if_pos rfl]

/-- A language that is not registered has the chain of the reference language. -/
theorem chain_of_unregistered (h : build reference languages = .ok r)
    (hcode : r.contains code = false) : r.chain code = [reference] := by
  have hnone : r.get? code = none := by
    rw [← Option.not_isSome_iff_eq_none, isSome_get?_of_build h]
    exact (contains_eq_false_iff_of_build h).mp hcode
  have hreference := chain_reference h
  rw [chain, reference_of_build h, Option.or_self] at hreference
  rw [chain, reference_of_build h, hnone, Option.none_or, hreference]

/-- A chain leads to registered languages only, whatever language it is asked for. -/
theorem mem_codes_of_mem_chain (h : build reference languages = .ok r)
    (hcode : code ∈ r.chain language) : code ∈ languages.map Language.code := by
  obtain ⟨root, hroot, rfl, _⟩ := (build_eq_ok_iff.mp h).2.1
  cases hlanguage : r.contains language with
  | false =>
      rw [chain_of_unregistered h hlanguage] at hcode
      obtain rfl := List.mem_singleton.mp hcode
      exact List.mem_map_of_mem hroot
  | true =>
      obtain ⟨l, hl, rfl⟩ := List.mem_map.mp ((contains_of_build h).mp hlanguage)
      obtain ⟨passed, last, hlineage, _, hchain⟩ := exists_lineage_of_build h hl
      have hmem : code ∈ passed ∨ code = root.code := by
        rw [hchain] at hcode
        split at hcode
        · exact .inl hcode
        · simpa using hcode
      rcases hmem with hpassed | rfl
      · exact hlineage.mem_codes hl hpassed
      · exact List.mem_map_of_mem hroot

/-- A chain repeats nothing. -/
theorem nodup_chain (h : build reference languages = .ok r) (hl : l ∈ languages) :
    (r.chain l.code).Nodup := by
  obtain ⟨hcodes, ⟨root, hroot, rfl, hparent⟩, _⟩ := build_eq_ok_iff.mp h
  obtain ⟨passed, last, hlineage, hnodup, hchain⟩ := exists_lineage_of_build h hl
  rw [hchain]
  split
  · exact hnodup
  · rename_i hlast
    rw [← List.concat_eq_append]
    refine hnodup.concat fun hmem => ?_
    -- The reference language has no parent, so a lineage passes it last.
    rcases hlineage.eq_last_or_fallsBack hl hmem with heq | ⟨parent, hfalls⟩
    · exact hlast heq.symm
    · rw [hfalls.parent_eq hcodes hroot] at hparent
      cases hparent

/-- The chains of a registry follow the parents of its languages. -/
structure Chained (r : Registry) (reference : String) (languages : List Language) : Prop where
  contains : ∀ code, r.contains code = true ↔ code ∈ languages.map Language.code
  starts : ∀ l ∈ languages, (r.chain l.code).head? = some l.code
  ends : ∀ l ∈ languages, (r.chain l.code).getLast? = some reference
  once : ∀ l ∈ languages, (r.chain l.code).count reference = 1
  nodup : ∀ l ∈ languages, (r.chain l.code).Nodup
  registered : ∀ l ∈ languages, ∀ code ∈ r.chain l.code, r.contains code = true
  child : ∀ l ∈ languages, ∀ parent, l.parent = some parent →
    r.chain l.code = l.code :: r.chain parent
  top : ∀ l ∈ languages, l.parent = none → l.code ≠ reference →
    r.chain l.code = [l.code, reference]
  root : r.chain reference = [reference]
  unregistered : ∀ code, r.contains code = false → r.chain code = [reference]

theorem head?_chain (h : build reference languages = .ok r) (hl : l ∈ languages) :
    (r.chain l.code).head? = some l.code := by
  cases hparent : l.parent with
  | some parent => rw [chain_of_parent h hl hparent]; rfl
  | none => rw [chain_of_top h hl hparent]; split <;> rfl

theorem chained_of_build (h : build reference languages = .ok r) :
    r.Chained reference languages where
  contains _ := contains_of_build h
  starts _ := head?_chain h
  ends l _ := getLast?_chain_of_build h l.code
  once l hl := List.count_eq_one_of_mem (nodup_chain h hl)
    (List.mem_of_getLast? (getLast?_chain_of_build h l.code))
  nodup _ := nodup_chain h
  registered _ _ _ hcode := (contains_of_build h).mpr (mem_codes_of_mem_chain h hcode)
  child _ hl _ := chain_of_parent h hl
  top _ hl hparent hne := by rw [chain_of_top h hl hparent, if_neg hne]
  root := chain_reference h
  unregistered _ := chain_of_unregistered h

end Registry

/-- Languages make a registry exactly if their parents lead up to languages without a parent, of
which the reference language is one.  The chains of the registry then follow the parents.  The
climbs that work the chains out end for every table of languages. -/
theorem exists_build_iff (reference : String) (languages : List Language) :
    ((∃ r, Registry.build reference languages = .ok r) ↔ Rooted reference languages) ∧
    (∀ r, Registry.build reference languages = .ok r → r.Chained reference languages) ∧
    ∀ (table : LanguageTable) (l : Language), ∃ outcome,
      Loop.EndsIn (Registry.climbStep table l.code) (.ok ⟨l, [l.code]⟩) outcome ∧
        Registry.climb table l = outcome := by
  refine ⟨⟨?_, Registry.exists_build_of_rooted⟩, fun _ => Registry.chained_of_build, ?_⟩
  · rintro ⟨r, h⟩
    exact Registry.rooted_of_build h
  · intro table l
    exact ⟨_, Registry.endsIn_climb table l, rfl⟩

/-- English is spoken on the island of Man, and Breton on two islands, each in its own way. -/
def coastLanguages : List Language :=
  [{ code := "ushant", displayName := "Eusaweg", parent := some "leon" },
    { code := "manx", displayName := "Manx", parent := some "english" },
    { code := "breton", displayName := "Brezhoneg" },
    { code := "english", displayName := "English" },
    { code := "leon", displayName := "Leoneg", parent := some "breton" }]

theorem exists_build_coast : ∃ r, Registry.build "english" coastLanguages = .ok r :=
  exists_eq_ok_of_isOk (by cbv)

theorem exists_build_iff_coast : ∃ r, Registry.build "english" coastLanguages = .ok r ∧
    Rooted "english" coastLanguages ∧
    r.chain "ushant" = ["ushant", "leon", "breton", "english"] ∧
    r.chain "manx" = ["manx", "english"] ∧ r.chain "cornish" = ["english"] := by
  have hrooted := (exists_build_iff "english" coastLanguages).1.mp exists_build_coast
  obtain ⟨r, h⟩ := exists_build_coast
  have hchained := (exists_build_iff "english" coastLanguages).2.1 r h
  refine ⟨r, h, hrooted, ?_, ?_, ?_⟩
  · have hushant := hchained.child _ (.head _) "leon" rfl
    have hleon := hchained.child _ (.tail _ (.tail _ (.tail _ (.tail _ (.head _))))) "breton" rfl
    have hbreton := hchained.top _ (.tail _ (.tail _ (.head _))) rfl (by decide)
    rw [hleon, hbreton] at hushant
    exact hushant
  · have hmanx := hchained.child _ (.tail _ (.head _)) "english" rfl
    rw [hchained.root] at hmanx
    exact hmanx
  · exact hchained.unregistered _ ((Registry.contains_eq_false_iff_of_build h).mpr (by decide))

end BranchingStory
