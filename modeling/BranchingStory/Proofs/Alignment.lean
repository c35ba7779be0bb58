import Mathlib.Data.List.Forall2

/-!
# Lists side by side

Two lists belong together element by element if the one was made from the other, or if they are
two versions of the same list.  What is true of each pair of elements is then true of the lists.
-/

namespace BranchingStory

variable {α β γ : Type} {R : α → β → Prop} {l l₁ l₂ : List α} {l' : List β}

theorem map_eq_map_of_forall₂ {f : α → γ} {g : β → γ} (h : List.Forall₂ R l l')
    (hfg : ∀ a b, R a b → f a = g b) : l.map f = l'.map g := by
  induction h with
  | nil => rfl
  | cons hab _ ih => rw [List.map_cons, List.map_cons, hfg _ _ hab, ih]

theorem forall_mem_iff_of_forall₂ {P : α → Prop} {Q : β → Prop} (h : List.Forall₂ R l l')
    (hPQ : ∀ a b, R a b → (P a ↔ Q b)) : (∀ a ∈ l, P a) ↔ ∀ b ∈ l', Q b := by
  induction h with
  | nil => simp
  | cons hab _ ih => rw [List.forall_mem_cons, List.forall_mem_cons, hPQ _ _ hab, ih]

theorem exists_mem_iff_of_forall₂ {P : α → Prop} {Q : β → Prop} (h : List.Forall₂ R l l')
    (hPQ : ∀ a b, R a b → (P a ↔ Q b)) : (∃ a ∈ l, P a) ↔ ∃ b ∈ l', Q b := by
  induction h with
  | nil => simp
  | cons hab _ ih => rw [List.exists_mem_cons_iff, List.exists_mem_cons_iff, hPQ _ _ hab, ih]

theorem exists_mem_of_forall₂ (h : List.Forall₂ R l l') {b : β} (hb : b ∈ l') : ∃ a ∈ l, R a b := by
  induction h with
  | nil => cases hb
  | cons hab _ ih =>
      cases hb with
      | head => exact ⟨_, .head _, hab⟩
      | tail _ hb =>
          obtain ⟨a, ha, hR⟩ := ih hb
          exact ⟨a, .tail _ ha, hR⟩

theorem exists_mem_right_of_forall₂ (h : List.Forall₂ R l l') {a : α} (ha : a ∈ l) :
    ∃ b ∈ l', R a b := by
  obtain ⟨b, hb, hab⟩ := exists_mem_of_forall₂ h.flip ha
  exact ⟨b, hb, hab⟩

theorem exists_append_of_forall₂ (h : List.Forall₂ R (l₁ ++ l₂) l') :
    ∃ l₁' l₂', l' = l₁' ++ l₂' ∧ List.Forall₂ R l₁ l₁' ∧ List.Forall₂ R l₂ l₂' := by
  induction l₁ generalizing l' with
  | nil => exact ⟨[], l', rfl, .nil, h⟩
  | cons a rest ih =>
      cases h with
      | cons hab hrest =>
          obtain ⟨l₁', l₂', rfl, h₁, h₂⟩ := ih hrest
          exact ⟨_ :: l₁', l₂', rfl, .cons hab h₁, h₂⟩

/-- Every element has an image, which belongs to what the element belongs to. -/
theorem forall₂_filterMap {S : α → γ → Prop} {f : β → Option γ} (h : List.Forall₂ R l l')
    (hf : ∀ a, ∀ b ∈ l', R a b → ∃ c, f b = some c ∧ S a c) :
    List.Forall₂ S l (l'.filterMap f) := by
  induction h with
  | nil => exact .nil
  | cons hab _ ih =>
      obtain ⟨c, hc, hS⟩ := hf _ _ (.head _) hab
      rw [List.filterMap_cons_some hc]
      exact .cons hS (ih fun a b hb => hf a b (.tail _ hb))

theorem forall₂_and_right {Q : β → Prop} (h : List.Forall₂ R l l') (hQ : ∀ b ∈ l', Q b) :
    List.Forall₂ (fun a b => R a b ∧ Q b) l l' := by
  induction h with
  | nil => exact .nil
  | cons hab _ ih =>
      obtain ⟨hb, hrest⟩ := List.forall_mem_cons.mp hQ
      exact .cons ⟨hab, hb⟩ (ih hrest)

/-- Two lists that belong to the same one belong to each other. -/
theorem forall₂_of_forall₂ {S : α → γ → Prop} {T : β → γ → Prop} {m : List γ}
    (h : List.Forall₂ R l l') (h' : List.Forall₂ S l m)
    (hT : ∀ a b c, R a b → S a c → T b c) : List.Forall₂ T l' m := by
  induction h generalizing m with
  | nil => exact List.forall₂_nil_left_iff.mp h' ▸ .nil
  | cons hab _ ih =>
      cases h' with
      | cons hac hrest => exact .cons (hT _ _ _ hab hac) (ih hrest)

/-- What belongs to the element at a position is its image. -/
theorem getElem?_of_forall₂ {f : α → Option β} (h : List.Forall₂ (fun a b => f a = some b) l l')
    (i : Nat) : l'[i]? = l[i]?.bind f := by
  induction h generalizing i with
  | nil => rfl
  | cons hab _ ih =>
      cases i with
      | zero => exact hab.symm
      | succ i => exact ih i

theorem map_mapIdx {f : Nat → α → β} {g : β → γ} :
    (l.mapIdx f).map g = l.mapIdx fun i a => g (f i a) := by
  refine List.ext_getElem? fun i => ?_
  rw [List.getElem?_map, List.getElem?_mapIdx, List.getElem?_mapIdx, Option.map_map]
  rfl

/-- Two lists made from one list by position. -/
theorem forall₂_mapIdx {R : β → γ → Prop} {f : Nat → α → β} {g : Nat → α → γ}
    (h : ∀ i a, l[i]? = some a → R (f i a) (g i a)) :
    List.Forall₂ R (l.mapIdx f) (l.mapIdx g) := by
  induction l generalizing f g with
  | nil => exact .nil
  | cons a rest ih =>
      rw [List.mapIdx_cons, List.mapIdx_cons]
      exact .cons (h 0 a rfl) (ih fun i b hb => h (i + 1) b hb)

/-- A list changed by what belongs to its elements. -/
theorem forall₂_mapIdx_getElem? {g : α → β → α} (h : List.Forall₂ R l l') :
    List.Forall₂ (fun a' b => ∃ a, a' = g a b ∧ R a b)
      (l.mapIdx fun i a => (l'[i]?.map (g a)).getD a) l' := by
  induction h with
  | nil => exact .nil
  | @cons a b _ _ hab _ ih =>
      simp only [List.mapIdx_cons, List.getElem?_cons_zero, List.getElem?_cons_succ]
      exact .cons ⟨a, rfl, hab⟩ ih

end BranchingStory
