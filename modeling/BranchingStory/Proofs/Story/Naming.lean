import BranchingStory.Proofs.Numerals
import BranchingStory.Story.Naming

/-!
# Names from slots

The name of an unnamed node is read back in two steps.  The number of the chapter ends at the
first underscore, since digits hold none.  What follows is a word or a number for the shared
slots, which hold no underscore either.  In a track it is the label of the perspective and a
number, and the number begins after the last underscore, whatever the label holds.  So the chapter
and the slot can be read off a name up to the spelling of the perspective
(`Slot.nodeName_eq_iff`).
-/

namespace BranchingStory.Slot

open Text (threeDigits)

variable {slot slot' : Slot} {chapter chapter' : Nat}

/-- The slots are the same up to the spelling of the perspective. -/
inductive Alike : Slot → Slot → Prop where
  | prologue (position : Nat) : Alike (.prologue position) (.prologue position)
  | track {pov pov' : String} (h : povLabel pov = povLabel pov') (position : Nat) :
      Alike (.track pov position) (.track pov' position)
  | investigation : Alike .investigation .investigation
  | ending : Alike .ending .ending

/-- The part of a name that tells the slot. -/
def suffix : Slot → String
  | prologue 0 => "START"
  | prologue (position + 1) => threeDigits (position + 2)
  | track pov position => povLabel pov ++ "_" ++ threeDigits (position + 1)
  | investigation => "INVESTIGATION"
  | ending => "END"

theorem nodeName_eq (chapter : Nat) (slot : Slot) :
    slot.nodeName chapter = "CH" ++ chapter.repr ++ "_" ++ slot.suffix := by
  cases slot with
  | prologue position =>
      cases position with
      | zero => simp [nodeName, entryName, suffix, ← String.toList_inj]
      | succ position => rfl
  | track pov position => simp [nodeName, suffix, String.append_assoc]
  | investigation => simp [nodeName, suffix, ← String.toList_inj]
  | ending => simp [nodeName, suffix, ← String.toList_inj]

/-- Names of one chapter differ in the slot, and no two chapters share a name. -/
theorem nodeName_eq_iff_suffix_eq : slot.nodeName chapter = slot'.nodeName chapter' ↔
    chapter = chapter' ∧ slot.suffix = slot'.suffix := by
  have hdigits : ∀ n : Nat, '_' ∉ n.repr.toList := notMem_repr rfl
  have hsplit := append_separator_inj (x := slot.suffix.toList) (y := slot'.suffix.toList)
    (.inl ⟨hdigits chapter, hdigits chapter'⟩)
  rw [String.toList_inj, Nat.repr_inj, String.toList_inj] at hsplit
  rw [nodeName_eq, nodeName_eq, ← hsplit]
  simp [← String.toList_inj]

/-! ## Reading the slot -/

theorem underscore_notMem_threeDigits (n : Nat) : '_' ∉ (threeDigits n).toList := by
  intro h
  cases isDigit_of_mem_threeDigits h

/-- Only in a track the name of a slot holds an underscore. -/
theorem underscore_notMem_suffix (h : ∀ pov position, slot ≠ .track pov position) :
    '_' ∉ slot.suffix.toList := by
  cases slot with
  | prologue position =>
      cases position with
      | zero => simp [suffix]
      | succ position => exact underscore_notMem_threeDigits _
  | track pov position => exact absurd rfl (h pov position)
  | investigation => simp [suffix]
  | ending => simp [suffix]

theorem suffix_track_ne (pov : String) (position : Nat)
    (h : ∀ pov position, slot ≠ .track pov position) :
    (track pov position).suffix ≠ slot.suffix := by
  intro heq
  refine underscore_notMem_suffix h ?_
  rw [← heq]
  simp [suffix]

theorem suffix_track_eq_iff {pov pov' : String} {position position' : Nat} :
    (track pov position).suffix = (track pov' position').suffix ↔
      povLabel pov = povLabel pov' ∧ position = position' := by
  have hsplit := append_separator_inj (a := (povLabel pov).toList) (b := (povLabel pov').toList)
    (.inr ⟨underscore_notMem_threeDigits (position + 1),
      underscore_notMem_threeDigits (position' + 1)⟩)
  rw [String.toList_inj, String.toList_inj, threeDigits_inj, Nat.add_right_cancel_iff] at hsplit
  rw [← hsplit]
  simp [suffix, ← String.toList_inj]

/-- A padded number is no word. -/
theorem threeDigits_ne_word {word : String} (hword : word.toList.any (!·.isDigit)) (n : Nat) :
    threeDigits n ≠ word := by
  rintro rfl
  obtain ⟨c, hc, hnot⟩ := List.any_eq_true.mp hword
  simp [isDigit_of_mem_threeDigits hc] at hnot

/-- A slot outside the tracks is read off its word or its number. -/
theorem eq_of_suffix_eq (h : ∀ pov position, slot ≠ .track pov position)
    (h' : ∀ pov position, slot' ≠ .track pov position) (heq : slot.suffix = slot'.suffix) :
    slot = slot' := by
  have hstart (n : Nat) : threeDigits n ≠ "START" := threeDigits_ne_word (by decide) n
  have hinvestigation (n : Nat) : threeDigits n ≠ "INVESTIGATION" :=
    threeDigits_ne_word (by decide) n
  have hending (n : Nat) : threeDigits n ≠ "END" := threeDigits_ne_word (by decide) n
  rcases slot with (_ | position) | _ | _ | _ <;> rcases slot' with (_ | position') | _ | _ | _ <;>
    simp_all [suffix, threeDigits_inj, eq_comm]

theorem Alike.refl (slot : Slot) : slot.Alike slot := by
  cases slot with
  | prologue position => exact .prologue position
  | track pov position => exact .track rfl position
  | investigation => exact .investigation
  | ending => exact .ending

theorem suffix_eq_iff : slot.suffix = slot'.suffix ↔ slot.Alike slot' := by
  constructor
  · intro heq
    by_cases h : ∀ pov position, slot ≠ .track pov position
    · by_cases h' : ∀ pov position, slot' ≠ .track pov position
      · rw [eq_of_suffix_eq h h' heq]
        exact .refl slot'
      · push Not at h'
        obtain ⟨pov, position, rfl⟩ := h'
        exact absurd heq.symm (suffix_track_ne pov position h)
    · push Not at h
      obtain ⟨pov, position, rfl⟩ := h
      cases slot' with
      | track pov' position' =>
          obtain ⟨hlabel, rfl⟩ := suffix_track_eq_iff.mp heq
          exact .track hlabel position
      | _ => exact absurd heq (suffix_track_ne pov position (by simp))
  · intro h
    cases h with
    | track hlabel position => exact suffix_track_eq_iff.mpr ⟨hlabel, rfl⟩
    | _ => rfl

/-- Names collide only through the spelling of a perspective. -/
theorem nodeName_eq_iff :
    slot.nodeName chapter = slot'.nodeName chapter' ↔ chapter = chapter' ∧ slot.Alike slot' := by
  rw [nodeName_eq_iff_suffix_eq, suffix_eq_iff]

end BranchingStory.Slot
