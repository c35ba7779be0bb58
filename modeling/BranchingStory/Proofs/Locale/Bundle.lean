import BranchingStory.Locale.Bundle

/-!
# Bundles made from slots

A bundle made from slots answers for a key with the last slot of the key that has the language
(`get?_ofSlots`).  So slots of one key are merged, and a text is kept as it is if no other text
has its key (`get?_ofSlots_of_unique`).
-/

namespace BranchingStory.Bundle

variable {b : Bundle} {surface key language : String} {slots : List (String × Translations)}

/-- An added text adds its key. -/
theorem mem_entries_add {added : String} {text : Translations} :
    key ∈ (b.add added text).entries ↔ added = key ∨ key ∈ b.entries := by
  rw [add, Std.ExtTreeMap.mem_alter]
  split
  · rename_i h
    simp [Std.LawfulEqOrd.compare_eq_iff_eq.mp h]
  · rename_i h
    simp [mt Std.LawfulEqOrd.compare_eq_iff_eq.mpr h]

theorem mem_entries_foldl_add (b : Bundle) :
    key ∈ (slots.foldl (fun b slot => b.add slot.1 slot.2) b).entries ↔
      (∃ s ∈ slots, s.1 = key) ∨ key ∈ b.entries := by
  induction slots generalizing b with
  | nil => simp
  | cons s rest ih =>
      rw [List.foldl_cons, ih, mem_entries_add]
      simp only [List.mem_cons, exists_eq_or_imp, or_assoc, or_left_comm]

/-- The keys of a bundle are those of its slots. -/
theorem mem_entries_ofSlots :
    key ∈ (ofSlots surface slots).entries ↔ ∃ s ∈ slots, s.1 = key := by
  rw [ofSlots, mem_entries_foldl_add]
  simp

/-- The wording that a slot has for a key in a language. -/
def slotWording? (key language : String) (slot : String × Translations) : Option String :=
  if slot.1 = key then slot.2[language]? else none

theorem get?_foldl_add (b : Bundle) :
    (slots.foldl (fun b slot => b.add slot.1 slot.2) b).get? key language =
      (slots.reverse.findSome? (slotWording? key language)).or (b.get? key language) := by
  induction slots generalizing b with
  | nil => rfl
  | cons s rest ih =>
      rw [List.foldl_cons, ih, List.reverse_cons, List.findSome?_append, get?_add, Option.or_assoc]
      congr 1
      by_cases hkey : s.1 = key
      · cases hwording : s.2[language]? <;> simp [slotWording?, hkey, hwording]
      · simp [slotWording?, hkey]

/-- A bundle answers for a key with the last of its slots that has the language. -/
theorem get?_ofSlots :
    (ofSlots surface slots).get? key language =
      slots.reverse.findSome? (slotWording? key language) := by
  have hempty : ({ surface := surface } : Bundle).get? key language = none := by simp [get?]
  rw [ofSlots, get?_foldl_add, hempty, Option.or_none]

theorem slotWording?_eq_some_iff {slot : String × Translations} {wording : String} :
    slotWording? key language slot = some wording ↔
      slot.1 = key ∧ slot.2[language]? = some wording := by
  rw [slotWording?]
  split <;> simp_all

/-- What a bundle answers is the wording of some slot of the key. -/
theorem exists_slot_of_get?_ofSlots {wording : String}
    (h : (ofSlots surface slots).get? key language = some wording) :
    ∃ s ∈ slots, s.1 = key ∧ s.2[language]? = some wording := by
  rw [get?_ofSlots] at h
  obtain ⟨s, hs, hwording⟩ := List.exists_of_findSome?_eq_some h
  exact ⟨s, List.mem_reverse.mp hs, slotWording?_eq_some_iff.mp hwording⟩

/-- A bundle answers for a key exactly if some slot of the key has the language. -/
theorem isSome_get?_ofSlots :
    ((ofSlots surface slots).get? key language).isSome = true ↔
      ∃ s ∈ slots, s.1 = key ∧ s.2.contains language = true := by
  constructor
  · intro h
    obtain ⟨wording, hwording⟩ := Option.isSome_iff_exists.mp h
    obtain ⟨s, hs, hkey, hsome⟩ := exists_slot_of_get?_ofSlots hwording
    refine ⟨s, hs, hkey, ?_⟩
    rw [Std.ExtTreeMap.contains_eq_isSome_getElem?, hsome]
    rfl
  · rintro ⟨s, hs, hkey, hlanguage⟩
    rw [Std.ExtTreeMap.contains_eq_isSome_getElem?] at hlanguage
    obtain ⟨wording, hwording⟩ := Option.isSome_iff_exists.mp hlanguage
    rw [get?_ofSlots, List.findSome?_isSome_iff]
    exact ⟨s, List.mem_reverse.mpr hs,
      Option.isSome_iff_exists.mpr ⟨wording, slotWording?_eq_some_iff.mpr ⟨hkey, hwording⟩⟩⟩

/-- A text is kept as it is if no other text has its key. -/
theorem get?_ofSlots_of_unique {text : Translations} (hmem : (key, text) ∈ slots)
    (hunique : ∀ s ∈ slots, s.1 = key → s.2 = text) :
    (ofSlots surface slots).get? key language = text[language]? := by
  have hget : ∀ wording, (ofSlots surface slots).get? key language = some wording →
      text[language]? = some wording := by
    intro wording h
    obtain ⟨s, hs, hkey, hwording⟩ := exists_slot_of_get?_ofSlots h
    rw [← hunique s hs hkey, hwording]
  refine Option.ext fun wording => ⟨hget wording, fun h => ?_⟩
  have hsome : ((ofSlots surface slots).get? key language).isSome = true := by
    refine isSome_get?_ofSlots.mpr ⟨_, hmem, rfl, ?_⟩
    rw [Std.ExtTreeMap.contains_eq_isSome_getElem?, h]
    rfl
  obtain ⟨other, hother⟩ := Option.isSome_iff_exists.mp hsome
  rw [hother, ← hget other hother, h]

end BranchingStory.Bundle
