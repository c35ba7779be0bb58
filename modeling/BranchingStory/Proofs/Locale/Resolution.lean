import BranchingStory.Proofs.Locale.Audit
import BranchingStory.Proofs.Locale.Chains

/-!
# Resolution and audit

A lookup takes the text of the first language of the chain that has one
(`Registry.resolve_eq_found_iff`), and misses if no language of the chain has one
(`Registry.resolve_eq_missing_iff`).  In a registry that is built, chains follow the parents of
the languages, so a language without a text answers as its parent does, and a language that is
not registered as the reference language does.  An audit looks at each language alone.  It lists
a text of the reference language as a gap exactly if a lookup takes it from another language
(`resolves_of_build`).
-/

namespace BranchingStory

variable {reference key language source text parent : String} {languages : List Language}
  {l : Language} {r : Registry} {b : Bundle} {chain : List String}

/-! ## The first language of a chain -/

/-- The first language of a chain that has the key is `source`, and its text is `text`. -/
def Bundle.Supplies (b : Bundle) (chain : List String) (key source text : String) : Prop :=
  ∃ before after, chain = before ++ source :: after ∧
    (∀ code ∈ before, b.get? key code = none) ∧ b.get? key source = some text

namespace Bundle

theorem findSome?_eq_some_iff_supplies :
    chain.findSome? (fun code => (b.get? key code).map (code, ·)) = some (source, text) ↔
      b.Supplies chain key source text := by
  rw [List.findSome?_eq_some_iff]
  constructor
  · rintro ⟨before, code, after, rfl, hcode, hbefore⟩
    obtain ⟨_, htext, heq⟩ := Option.map_eq_some_iff.mp hcode
    obtain ⟨rfl, rfl⟩ := Prod.mk.inj heq
    refine ⟨before, after, rfl, fun code hmem => ?_, htext⟩
    exact Option.map_eq_none_iff.mp (hbefore code hmem)
  · rintro ⟨before, after, rfl, hbefore, htext⟩
    refine ⟨before, source, after, rfl, by rw [htext]; rfl, fun code hmem => ?_⟩
    rw [hbefore code hmem]
    rfl

theorem findSome?_eq_none_iff_forall :
    chain.findSome? (fun code => (b.get? key code).map (code, ·)) = none ↔
      ∀ code ∈ chain, b.get? key code = none := by
  simp only [List.findSome?_eq_none_iff, Option.map_eq_none_iff]

/-- A language without a text supplies none. -/
theorem supplies_cons_iff (hnone : b.get? key language = none) :
    b.Supplies (language :: chain) key source text ↔ b.Supplies chain key source text := by
  rw [← findSome?_eq_some_iff_supplies, ← findSome?_eq_some_iff_supplies, List.findSome?_cons,
    hnone]
  rfl

theorem Supplies.mem (h : b.Supplies chain key source text) : source ∈ chain := by
  obtain ⟨before, after, rfl, _⟩ := h
  simp

theorem Supplies.get?_eq (h : b.Supplies chain key source text) :
    b.get? key source = some text := by
  obtain ⟨_, _, _, _, htext⟩ := h
  exact htext

/-- Another language supplies the text only if the first one has none. -/
theorem Supplies.get?_head_eq_none (h : b.Supplies chain key source text)
    (hhead : chain.head? = some language) (hne : source ≠ language) :
    b.get? key language = none := by
  obtain ⟨before, after, rfl, hbefore, _⟩ := h
  cases before with
  | nil => exact absurd (Option.some.inj hhead) hne
  | cons first rest =>
      obtain rfl := Option.some.inj hhead
      exact hbefore first (.head _)

end Bundle

namespace Registry

/-! ## One lookup -/

theorem resolve_eq_found_iff {f : Found} : r.resolve b key language = .found f ↔
    b.Supplies (r.chain language) key f.source f.text ∧ f.direction = r.direction f.source ∧
      f.unregistered = !r.contains language := by
  rw [← Bundle.findSome?_eq_some_iff_supplies, resolve]
  cases (r.chain language).findSome? fun code => (b.get? key code).map (code, ·) with
  | none => simp
  | some supply =>
      obtain ⟨source, text⟩ := supply
      obtain ⟨text', source', direction, unregistered⟩ := f
      simp only [Resolution.found.injEq, Found.mk.injEq, Option.some.injEq, Prod.mk.injEq]
      grind

theorem resolve_eq_missing_iff {m : Miss} : r.resolve b key language = .missing m ↔
    (∀ code ∈ r.chain language, b.get? key code = none) ∧
      m = ⟨key, language, !r.contains language⟩ := by
  rw [← Bundle.findSome?_eq_none_iff_forall, resolve]
  cases (r.chain language).findSome? fun code => (b.get? key code).map (code, ·) with
  | none => simp [eq_comm]
  | some supply => simp

/-- A text is found if some language of the chain has it. -/
theorem exists_resolve_eq_found {code : String} (hcode : code ∈ r.chain language)
    (h : (b.get? key code).isSome = true) : ∃ f, r.resolve b key language = .found f := by
  cases hanswer : r.resolve b key language with
  | found f => exact ⟨f, rfl⟩
  | missing m =>
      rw [(resolve_eq_missing_iff.mp hanswer).1 code hcode] at h
      cases h

/-- Every language is written in its own direction. -/
theorem direction_of_build (h : build reference languages = .ok r) (hl : l ∈ languages) :
    r.direction l.code = l.direction := by
  obtain ⟨entry, hentry⟩ := exists_entryOf_of_build h hl
  rw [direction, (get?_of_build h).mpr ⟨l, hl, rfl, hentry⟩]
  obtain ⟨_, _, rfl⟩ := entryOf_eq_ok_iff.mp hentry
  rfl

/-! ## What lookups and audits agree on -/

/-- Lookups and audits of a key in a language agree on where its text is. -/
structure Resolves (r : Registry) (reference : String) (languages : List Language) (b : Bundle)
    (key language : String) : Prop where
  /-- A resolver answers by the chain, whatever it has answered before. -/
  answers : ∀ s : Resolver, s.registry = r → s.bundle = b →
    (s.resolve key language).1 = r.resolve b key language
  misses : ∀ m, r.resolve b key language = .missing m ↔
    (∀ code ∈ r.chain language, b.get? key code = none) ∧
      m = ⟨key, language, !r.contains language⟩
  /-- A text comes in the direction of the language that supplies it. -/
  finds : ∀ f, r.resolve b key language = .found f ↔
    b.Supplies (r.chain language) key f.source f.text ∧
      (∃ l ∈ languages, l.code = f.source ∧ l.direction = f.direction) ∧
        f.unregistered = !r.contains language
  /-- A language without a text answers as its parent does. -/
  follows : ∀ l ∈ languages, l.code = language → ∀ parent, l.parent = some parent →
    b.get? key language = none →
      ∀ f, r.resolve b key language = .found f ↔ r.resolve b key parent = .found f
  covered : (b.get? key reference).isSome = true → ∃ f, r.resolve b key language = .found f
  /-- A gap is a text that is taken from another language. -/
  audits : r.contains language = true → language ≠ reference →
    (b.get? key reference).isSome = true →
      ∃ keys, (b.audit r reference).missing[language]? = some keys ∧
        (key ∈ keys ↔ ∃ f, r.resolve b key language = .found f ∧ f.source ≠ language)
  unregistered : r.contains language = false → r.resolve b key language =
    match b.get? key reference with
    | some text => .found ⟨text, reference, r.direction reference, true⟩
    | none => .missing ⟨key, language, true⟩

/-- The text comes in the direction of the language that it is taken from. -/
theorem resolve_eq_found_iff_of_build (h : build reference languages = .ok r) {f : Found} :
    r.resolve b key language = .found f ↔ b.Supplies (r.chain language) key f.source f.text ∧
      (∃ l ∈ languages, l.code = f.source ∧ l.direction = f.direction) ∧
        f.unregistered = !r.contains language := by
  rw [resolve_eq_found_iff]
  refine and_congr_right fun hsupplies => and_congr_left fun _ => ?_
  obtain ⟨l, hl, hcode⟩ := List.mem_map.mp (mem_codes_of_mem_chain h hsupplies.mem)
  rw [← hcode, direction_of_build h hl]
  constructor
  · intro hdirection
    exact ⟨l, hl, rfl, hdirection.symm⟩
  · rintro ⟨l', hl', hcode', hdirection⟩
    obtain rfl := List.inj_on_of_nodup_map (build_eq_ok_iff.mp h).1 hl' hl hcode'
    exact hdirection.symm

/-- A language without a text answers as its parent does. -/
theorem resolve_parent (h : build reference languages = .ok r) (hl : l ∈ languages)
    (hparent : l.parent = some parent) (hnone : b.get? key l.code = none) (f : Found) :
    r.resolve b key l.code = .found f ↔ r.resolve b key parent = .found f := by
  have hparent' : r.contains parent = true :=
    (contains_of_build h).mpr ((rooted_of_build h).known l hl parent hparent)
  rw [resolve_eq_found_iff, resolve_eq_found_iff, contains_code_of_build h hl, hparent',
    chain_of_parent h hl hparent, Bundle.supplies_cons_iff hnone]

/-- A text of the reference language is found in every language. -/
theorem exists_resolve_of_reference (h : build reference languages = .ok r)
    (hreference : (b.get? key reference).isSome = true) :
    ∃ f, r.resolve b key language = .found f :=
  exists_resolve_eq_found (List.mem_of_getLast? (getLast?_chain_of_build h language)) hreference

/-- A text of the reference language is taken from another language exactly if the language
has none. -/
theorem exists_source_ne_iff (h : build reference languages = .ok r) (hl : l ∈ languages)
    (hreference : (b.get? key reference).isSome = true) :
    (∃ f, r.resolve b key l.code = .found f ∧ f.source ≠ l.code) ↔ b.get? key l.code = none := by
  constructor
  · rintro ⟨f, hf, hne⟩
    exact (resolve_eq_found_iff.mp hf).1.get?_head_eq_none (head?_chain h hl) hne
  · intro hnone
    obtain ⟨f, hf⟩ := exists_resolve_of_reference h hreference
    refine ⟨f, hf, fun heq => ?_⟩
    have htext := (resolve_eq_found_iff.mp hf).1.get?_eq
    rw [heq, hnone] at htext
    cases htext

theorem audit_of_build (h : build reference languages = .ok r) (hl : l ∈ languages)
    (hne : l.code ≠ reference) (hreference : (b.get? key reference).isSome = true) :
    ∃ keys, (b.audit r reference).missing[l.code]? = some keys ∧
      (key ∈ keys ↔ ∃ f, r.resolve b key l.code = .found f ∧ f.source ≠ l.code) := by
  have haudited : l.code ∈ b.auditedLanguages r reference :=
    Bundle.mem_auditedLanguages_iff.mpr ⟨hne, .inl (contains_code_of_build h hl)⟩
  refine ⟨_, Bundle.getElem?_missing_audit.mpr ⟨haudited, rfl⟩, ?_⟩
  rw [exists_source_ne_iff h hl hreference, Bundle.mem_gaps_iff]
  exact and_iff_right hreference

/-- A language that is not registered answers with the text of the reference language. -/
theorem resolve_of_unregistered (h : build reference languages = .ok r)
    (hlanguage : r.contains language = false) : r.resolve b key language =
      match b.get? key reference with
      | some text => .found ⟨text, reference, r.direction reference, true⟩
      | none => .missing ⟨key, language, true⟩ := by
  rw [resolve, chain_of_unregistered h hlanguage, hlanguage]
  cases htext : b.get? key reference <;> simp [htext]

end Registry

/-- The answer of a resolver is that of its registry and its bundle. -/
theorem Resolver.resolve_fst (s : Resolver) (key language : String) :
    (s.resolve key language).1 = s.registry.resolve s.bundle key language := by
  rw [Resolver.resolve]
  cases s.registry.resolve s.bundle key language <;> rfl

/-- In a registry that is built, lookups take the first text of a chain, a language without a text
answers as its parent and an unregistered one as the reference language, and audits list the texts
that lookups take from other languages. -/
theorem resolves_of_build (h : Registry.build reference languages = .ok r) (b : Bundle)
    (key language : String) : r.Resolves reference languages b key language where
  answers s hregistry hbundle := by rw [Resolver.resolve_fst, hregistry, hbundle]
  misses _ := Registry.resolve_eq_missing_iff
  finds _ := Registry.resolve_eq_found_iff_of_build h
  follows l hl hcode parent hparent hnone f := by
    subst hcode
    exact Registry.resolve_parent h hl hparent hnone f
  covered := Registry.exists_resolve_of_reference h
  audits hlanguage hne hreference := by
    obtain ⟨l, hl, rfl⟩ := List.mem_map.mp ((Registry.contains_of_build h).mp hlanguage)
    exact Registry.audit_of_build h hl hne hreference
  unregistered := Registry.resolve_of_unregistered h

/-- A sign in three languages.  Cornish is not registered, and the islands have none. -/
def harbourSigns : Bundle :=
  ((({ surface := "signs" : Bundle }.insert "harbour" "english" "Harbour").insert
    "harbour" "breton" "Porzh").insert "harbour" "cornish" "Porth")

theorem resolves_of_build_harbour : ∃ r, Registry.build "english" coastLanguages = .ok r ∧
    (∀ f, r.resolve harbourSigns "harbour" "ushant" = .found f ↔
      r.resolve harbourSigns "harbour" "leon" = .found f) ∧
    (∃ f, r.resolve harbourSigns "harbour" "ushant" = .found f) ∧
    (∃ keys, (harbourSigns.audit r "english").missing["ushant"]? = some keys ∧
      "harbour" ∈ keys) ∧
    r.resolve harbourSigns "harbour" "cornish" =
      .found ⟨"Harbour", "english", r.direction "english", true⟩ := by
  obtain ⟨r, h⟩ := exists_build_coast
  have hushant := resolves_of_build h harbourSigns "harbour" "ushant"
  have hcornish := resolves_of_build h harbourSigns "harbour" "cornish"
  have hregistered : r.contains "ushant" = true :=
    (Registry.contains_of_build h).mpr (by decide)
  have hunregistered : r.contains "cornish" = false :=
    (Registry.contains_eq_false_iff_of_build h).mpr (by decide)
  have hfollows := hushant.follows _ (.head _) rfl "leon" rfl rfl
  obtain ⟨f, hf⟩ := hushant.covered rfl
  obtain ⟨keys, hkeys, hmem⟩ := hushant.audits hregistered (by decide) rfl
  refine ⟨r, h, hfollows, ⟨f, hf⟩, ⟨keys, hkeys, hmem.mpr ⟨f, hf, fun heq => ?_⟩⟩,
    hcornish.unregistered hunregistered⟩
  have htext := ((hushant.finds f).mp hf).1.get?_eq
  rw [heq] at htext
  cases htext

end BranchingStory
