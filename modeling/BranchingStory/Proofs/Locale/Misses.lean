import Mathlib.Data.List.Perm.Subperm
import Mathlib.Data.List.Sort
import Mathlib.Data.String.Basic
import BranchingStory.Proofs.Locale.Resolution

/-!
# The misses of a resolver

A resolver notes each lookup that misses.  A lookup changes nothing but these notes
(`Resolver.mem_misses_resolve`), so an answer does not depend on the lookups before it, and after
a run the notes are the misses among its requests (`Resolver.mem_misses_resolveAll`).  A miss is
determined by its key and its language, so it is noted once, and the notes depend neither on the
order of the requests nor on how often each was made (`misses_exact`).
-/

namespace BranchingStory

variable {key language : String} {r : Registry} {b : Bundle} {requests : List (String × String)}

/-! ## Ordered misses -/

/-- The misses of a set come in order, so those of a smaller set are a part of those of a larger
one. -/
theorem Misses.sublist_toList {s t : Misses} (h : ∀ m ∈ s, m ∈ t) :
    s.toList.Sublist t.toList := by
  have hantisymm : Std.Antisymm fun a b => Miss.order a b = .lt := by
    refine ⟨fun a b hlt hgt => ?_⟩
    have hswap : Miss.order a b = (Miss.order b a).swap := Std.OrientedCmp.eq_swap
    rw [hgt, hlt] at hswap
    cases hswap
  have hnodup : s.toList.Nodup := by
    refine Std.ExtTreeSet.ordered_toList.imp fun {a b} hlt heq => ?_
    have hself : Miss.order a a = .eq := Std.ReflCmp.compare_self
    rw [← heq, hself] at hlt
    cases hlt
  have hsubset : s.toList ⊆ t.toList := fun m hm =>
    Std.ExtTreeSet.mem_toList.mpr (h m (Std.ExtTreeSet.mem_toList.mp hm))
  exact List.sublist_of_subperm_of_pairwise (List.Nodup.subperm hnodup hsubset)
    Std.ExtTreeSet.ordered_toList Std.ExtTreeSet.ordered_toList

namespace Resolver

variable {s : Resolver} {m : Miss}

/-! ## Runs of lookups -/

/-- The answers to some requests, each for a key in a language, and the resolver after them. -/
def resolveAll (s : Resolver) : List (String × String) → List Resolution × Resolver
  | [] => ([], s)
  | (key, language) :: rest =>
      let (answer, s) := s.resolve key language
      let (answers, s) := s.resolveAll rest
      (answer :: answers, s)

/-- A new resolver after some requests. -/
def after (r : Registry) (b : Bundle) (requests : List (String × String)) : Resolver :=
  (resolveAll { registry := r, bundle := b } requests).2

/-- A lookup keeps the registry and the bundle. -/
theorem resolve_snd (s : Resolver) (key language : String) :
    (s.resolve key language).2.registry = s.registry ∧
      (s.resolve key language).2.bundle = s.bundle := by
  rw [resolve]
  cases s.registry.resolve s.bundle key language <;> exact ⟨rfl, rfl⟩

/-- A lookup adds its miss to the notes, if it is one. -/
theorem mem_misses_resolve : m ∈ (s.resolve key language).2.misses ↔
    s.registry.resolve s.bundle key language = .missing m ∨ m ∈ s.misses := by
  rw [resolve]
  cases s.registry.resolve s.bundle key language with
  | found f => simp
  | missing m' =>
      show m ∈ s.misses.insert m' ↔ _
      rw [Std.ExtTreeSet.mem_insert, Std.LawfulEqCmp.compare_eq_iff_eq, Resolution.missing.injEq]

theorem resolveAll_snd (s : Resolver) (requests : List (String × String)) :
    (s.resolveAll requests).2.registry = s.registry ∧
      (s.resolveAll requests).2.bundle = s.bundle := by
  induction requests generalizing s with
  | nil => exact ⟨rfl, rfl⟩
  | cons request rest ih =>
      obtain ⟨hregistry, hbundle⟩ := ih (s.resolve request.1 request.2).2
      obtain ⟨hregistry', hbundle'⟩ := s.resolve_snd request.1 request.2
      exact ⟨hregistry.trans hregistry', hbundle.trans hbundle'⟩

/-- Each answer of a run is that of the registry and the bundle to its own request. -/
theorem resolveAll_fst (s : Resolver) (requests : List (String × String)) :
    (s.resolveAll requests).1 =
      requests.map fun request => s.registry.resolve s.bundle request.1 request.2 := by
  induction requests generalizing s with
  | nil => rfl
  | cons request rest ih =>
      show (s.resolve request.1 request.2).1 ::
        ((s.resolve request.1 request.2).2.resolveAll rest).1 = _ :: _
      obtain ⟨hregistry, hbundle⟩ := s.resolve_snd request.1 request.2
      rw [resolve_fst, ih, hregistry, hbundle]

/-- A run adds the misses among its requests to the notes. -/
theorem mem_misses_resolveAll : m ∈ (s.resolveAll requests).2.misses ↔
    (∃ request ∈ requests, s.registry.resolve s.bundle request.1 request.2 = .missing m) ∨
      m ∈ s.misses := by
  induction requests generalizing s with
  | nil => simp [resolveAll]
  | cons request rest ih =>
      show m ∈ ((s.resolve request.1 request.2).2.resolveAll rest).2.misses ↔ _
      obtain ⟨hregistry, hbundle⟩ := s.resolve_snd request.1 request.2
      rw [ih, mem_misses_resolve, hregistry, hbundle, List.exists_mem_cons_iff, or_assoc]
      exact or_left_comm

theorem bundle_after : (after r b requests).bundle = b :=
  (resolveAll_snd _ requests).2

/-- A new resolver has noted the requests that no language of their chain has a text for. -/
theorem mem_misses_after : m ∈ (after r b requests).misses ↔ ∃ request ∈ requests,
    (∀ code ∈ r.chain request.2, b.get? request.1 code = none) ∧
      m = ⟨request.1, request.2, !r.contains request.2⟩ := by
  rw [after, mem_misses_resolveAll]
  simp [Registry.resolve_eq_missing_iff]

/-- What is noted of a miss is its key and its language, and whether that is registered. -/
theorem eq_of_mem_misses_after (h : m ∈ (after r b requests).misses) :
    m = ⟨m.key, m.language, !r.contains m.language⟩ := by
  obtain ⟨_, _, _, rfl⟩ := mem_misses_after.mp h
  rfl

/-- Misses are noted by key and then by language, and never twice. -/
theorem pairwise_misses_after (r : Registry) (b : Bundle) (requests : List (String × String)) :
    ((after r b requests).misses.toList.map fun m => (m.key, m.language)).Pairwise
      (Prod.Lex (· < ·) (· < ·)) := by
  rw [List.pairwise_map]
  refine Std.ExtTreeSet.ordered_toList.imp_of_mem fun {m m'} hm hm' hlt => ?_
  have hregistered := eq_of_mem_misses_after (Std.ExtTreeSet.mem_toList.mp hm)
  have hregistered' := eq_of_mem_misses_after (Std.ExtTreeSet.mem_toList.mp hm')
  simp only [Miss.order, compareLex, compareOn, Ordering.then_eq_lt,
    Std.LawfulEqOrd.compare_eq_iff_eq] at hlt
  rcases hlt with hkey | ⟨hkey, hlanguage | ⟨hlanguage, hflag⟩⟩
  · exact .left _ _ (compare_lt_iff_lt.mp hkey)
  · rw [hkey]
    exact .right _ (compare_lt_iff_lt.mp hlanguage)
  · -- The language says whether it is registered, so here both are the same miss.
    rw [hregistered, hregistered', hlanguage] at hflag
    exact absurd (compare_lt_iff_lt.mp hflag) (lt_irrefl _)

/-- A resolver depends on which requests were made, and on nothing else about them. -/
theorem misses_after_congr (r : Registry) (b : Bundle) {requests' : List (String × String)}
    (h : ∀ request, request ∈ requests' ↔ request ∈ requests) :
    (after r b requests').misses = (after r b requests).misses := by
  refine Std.ExtTreeSet.ext_mem fun m => ?_
  simp only [mem_misses_after, h]

/-- More requests only add misses. -/
theorem misses_after_append (more : List (String × String)) :
    (after r b requests).misses.toList.Sublist (after r b (requests ++ more)).misses.toList := by
  refine Misses.sublist_toList fun m hm => ?_
  obtain ⟨request, hrequest, hmiss⟩ := mem_misses_after.mp hm
  exact mem_misses_after.mpr ⟨request, List.mem_append_left _ hrequest, hmiss⟩

theorem diagnostics_after : (after r b requests).diagnostics =
    (after r b requests).misses.toList.map fun m =>
      .missingTranslation b.surface m.language m.key := by
  rw [diagnostics, bundle_after]

end Resolver

/-- Any run of lookups on a resolver.  Every answer is that of its own request alone.  The misses
are the requests that no language of their chain has a text for, each once and in the order of the
keys and then of the languages, and each comes with one warning.  They do not depend on the order
of the requests or on repetitions, and more requests only add to them. -/
theorem misses_exact (r : Registry) (b : Bundle) (requests : List (String × String)) :
    (∀ s : Resolver, s.registry = r → s.bundle = b → (s.resolveAll requests).1 =
      requests.map fun request => r.resolve b request.1 request.2) ∧
    (∃ missed : List (String × String), missed.Pairwise (Prod.Lex (· < ·) (· < ·)) ∧
      (∀ request, request ∈ missed ↔ request ∈ requests ∧
        ∀ code ∈ r.chain request.2, b.get? request.1 code = none) ∧
      (Resolver.after r b requests).misses.toList =
        missed.map (fun request => ⟨request.1, request.2, !r.contains request.2⟩) ∧
      (Resolver.after r b requests).diagnostics =
        missed.map fun request => .missingTranslation b.surface request.2 request.1) ∧
    (∀ d ∈ (Resolver.after r b requests).diagnostics, d.severity = .warning) ∧
    (∀ requests', (∀ request, request ∈ requests' ↔ request ∈ requests) →
      (Resolver.after r b requests').misses = (Resolver.after r b requests).misses ∧
      (Resolver.after r b requests').diagnostics = (Resolver.after r b requests).diagnostics) ∧
    ∀ more, (Resolver.after r b requests).misses.toList.Sublist
        (Resolver.after r b (requests ++ more)).misses.toList ∧
      (Resolver.after r b requests).diagnostics.Sublist
        (Resolver.after r b (requests ++ more)).diagnostics := by
  refine ⟨?_, ?_, ?_, ?_, ?_⟩
  · intro s hregistry hbundle
    rw [Resolver.resolveAll_fst, hregistry, hbundle]
  · refine ⟨_, Resolver.pairwise_misses_after r b requests, fun request => ?_, ?_, ?_⟩
    · simp only [List.mem_map, Std.ExtTreeSet.mem_toList, Resolver.mem_misses_after]
      constructor
      · rintro ⟨_, ⟨request, hrequest, hlacks, rfl⟩, rfl⟩
        exact ⟨hrequest, hlacks⟩
      · rintro ⟨hrequest, hlacks⟩
        exact ⟨_, ⟨request, hrequest, hlacks, rfl⟩, rfl⟩
    · rw [List.map_map]
      refine (List.map_id _).symm.trans (List.map_congr_left fun m hm => ?_)
      exact Resolver.eq_of_mem_misses_after (Std.ExtTreeSet.mem_toList.mp hm)
    · rw [Resolver.diagnostics_after, List.map_map]
      rfl
  · intro d hd
    rw [Resolver.diagnostics_after] at hd
    obtain ⟨m, _, rfl⟩ := List.mem_map.mp hd
    rfl
  · intro requests' hrequests
    have hmisses := Resolver.misses_after_congr r b hrequests
    refine ⟨hmisses, ?_⟩
    rw [Resolver.diagnostics_after, Resolver.diagnostics_after, hmisses]
  · intro more
    refine ⟨Resolver.misses_after_append more, ?_⟩
    rw [Resolver.diagnostics_after, Resolver.diagnostics_after]
    exact (Resolver.misses_after_append more).map _

/-- The signs have no quay.  It is missed once in each language that asks for it, in any order. -/
theorem misses_exact_harbour : ∃ r, Registry.build "english" coastLanguages = .ok r ∧
    ⟨"quay", "cornish", true⟩ ∈ (Resolver.after r harbourSigns
      [("quay", "ushant"), ("harbour", "leon"), ("quay", "cornish"), ("quay", "ushant")]).misses ∧
    (Resolver.after r harbourSigns
      [("quay", "ushant"), ("harbour", "leon"), ("quay", "cornish"), ("quay", "ushant")]).misses =
    (Resolver.after r harbourSigns
      [("quay", "cornish"), ("quay", "ushant"), ("harbour", "leon")]).misses := by
  obtain ⟨r, h⟩ := exists_build_coast
  have hunregistered : r.contains "cornish" = false :=
    (Registry.contains_eq_false_iff_of_build h).mpr (by decide)
  have hquay : ∀ code, harbourSigns.get? "quay" code = none := by
    intro code
    have hempty : ({ surface := "signs" } : Bundle).get? "quay" code = none := by
      simp [Bundle.get?]
    simp [harbourSigns, Bundle.get?_insert, hempty]
  obtain ⟨_, ⟨missed, _, hmem, hlist, _⟩, _, hcongr, _⟩ := misses_exact r harbourSigns
    [("quay", "cornish"), ("quay", "ushant"), ("harbour", "leon")]
  obtain ⟨hmisses, _⟩ := hcongr
    [("quay", "ushant"), ("harbour", "leon"), ("quay", "cornish"), ("quay", "ushant")]
    (by grind)
  refine ⟨r, h, ?_, hmisses⟩
  rw [hmisses, ← Std.ExtTreeSet.mem_toList, hlist]
  have hrequest := (hmem _).mpr ⟨.head _, fun code _ => hquay code⟩
  refine List.mem_map.mpr ⟨("quay", "cornish"), hrequest, ?_⟩
  rw [hunregistered]
  rfl

end BranchingStory
