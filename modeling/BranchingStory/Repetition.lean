/-!
# Repetition in a list

Records are told apart by a name or a number, and the first record of a name
wins.  `firstRepeat?` finds the first element that stands in a list already.
`firstPerKey` keeps the first record of every key, and `repeatedKeys` lists the
keys of the records it drops.

`firstRepeat?_eq_none_iff` says that nothing repeats exactly in a list without
duplicates.  `perm_firstPerKey` says that no record is lost: the kept keys and
the repeated keys together are the keys of the list.  `nodup_map_firstPerKey` says
that the kept keys are distinct.  Where they are distinct, a look-up from the end finds
the one record of a key (`findRev?_eq_some_of_nodup`).
-/

namespace BranchingStory

variable {α κ : Type} [DecidableEq α] [DecidableEq κ]

/-! ## The first repeated element -/

/-- The first element that is in `seen` or stands earlier in the list. -/
def firstRepeatAfter? (seen : List α) : List α → Option α
  | [] => none
  | a :: rest => if a ∈ seen then some a else firstRepeatAfter? (a :: seen) rest

/-- The first element that stands earlier in the list already. -/
def firstRepeat? (l : List α) : Option α := firstRepeatAfter? [] l

theorem firstRepeatAfter?_eq_none_iff {seen l : List α} :
    firstRepeatAfter? seen l = none ↔ l.Nodup ∧ ∀ a ∈ l, a ∉ seen := by
  induction l generalizing seen with
  | nil => simp [firstRepeatAfter?]
  | cons a rest ih =>
      by_cases h : a ∈ seen
      · simp [firstRepeatAfter?, h]
      · rw [firstRepeatAfter?, if_neg h, ih]
        grind

/-- Nothing repeats exactly when the elements are pairwise distinct. -/
theorem firstRepeat?_eq_none_iff {l : List α} : firstRepeat? l = none ↔ l.Nodup := by
  simp [firstRepeat?, firstRepeatAfter?_eq_none_iff]

/-- The first repeated element repeats. -/
theorem mem_of_firstRepeatAfter? {seen l : List α} {a : α}
    (h : firstRepeatAfter? seen l = some a) : a ∈ l ∧ (a ∈ seen ∨ 2 ≤ l.count a) := by
  induction l generalizing seen with
  | nil => cases h
  | cons b rest ih =>
      rw [firstRepeatAfter?] at h
      split at h
      · obtain rfl := Option.some.inj h
        exact ⟨.head _, .inl ‹_›⟩
      · obtain ⟨hmem, hrepeat⟩ := ih h
        refine ⟨.tail _ hmem, ?_⟩
        rcases hrepeat with hseen | hcount
        · cases hseen with
          | head =>
              have hpos := List.count_pos_iff.mpr hmem
              rw [List.count_cons_self]
              exact .inr (by omega)
          | tail _ hseen => exact .inl hseen
        · exact .inr (Nat.le_trans hcount List.count_le_count_cons)

theorem two_le_count_of_firstRepeat? {l : List α} {a : α} (h : firstRepeat? l = some a) :
    2 ≤ l.count a :=
  (mem_of_firstRepeatAfter? h).2.resolve_left (by simp)

/-! ## The first record of every key -/

/-- The records whose key is not in `seen` and stands at no earlier record. -/
def firstPerKeyAfter (key : α → κ) (seen : List κ) : List α → List α
  | [] => []
  | a :: rest =>
      if key a ∈ seen then firstPerKeyAfter key seen rest
      else a :: firstPerKeyAfter key (key a :: seen) rest

/-- The first record of every key, in order. -/
def firstPerKey (key : α → κ) (l : List α) : List α := firstPerKeyAfter key [] l

/-- The keys of the records that `firstPerKeyAfter` drops. -/
def repeatedKeysAfter (key : α → κ) (seen : List κ) : List α → List κ
  | [] => []
  | a :: rest =>
      if key a ∈ seen then key a :: repeatedKeysAfter key seen rest
      else repeatedKeysAfter key (key a :: seen) rest

/-- The key of every record that is not the first of its key, in order. -/
def repeatedKeys (key : α → κ) (l : List α) : List κ := repeatedKeysAfter key [] l

omit [DecidableEq α] in
theorem perm_firstPerKeyAfter (key : α → κ) (seen : List κ) (l : List α) :
    ((firstPerKeyAfter key seen l).map key ++ repeatedKeysAfter key seen l).Perm (l.map key) := by
  induction l generalizing seen with
  | nil => exact .nil
  | cons a rest ih =>
      by_cases h : key a ∈ seen
      · simp only [firstPerKeyAfter, repeatedKeysAfter, if_pos h, List.map_cons]
        exact List.perm_middle.trans ((ih seen).cons _)
      · simp only [firstPerKeyAfter, repeatedKeysAfter, if_neg h, List.map_cons]
        exact (ih (key a :: seen)).cons _

omit [DecidableEq α] in
/-- Every record is kept or its key is listed. -/
theorem perm_firstPerKey (key : α → κ) (l : List α) :
    ((firstPerKey key l).map key ++ repeatedKeys key l).Perm (l.map key) :=
  perm_firstPerKeyAfter key [] l

omit [DecidableEq α] in
theorem nodup_firstPerKeyAfter (key : α → κ) (seen : List κ) (l : List α) :
    ((firstPerKeyAfter key seen l).map key).Nodup ∧
      ∀ a ∈ firstPerKeyAfter key seen l, key a ∉ seen := by
  induction l generalizing seen with
  | nil => simp [firstPerKeyAfter]
  | cons a rest ih =>
      by_cases h : key a ∈ seen
      · rw [firstPerKeyAfter, if_pos h]
        exact ih seen
      · obtain ⟨hnodup, hseen⟩ := ih (key a :: seen)
        rw [firstPerKeyAfter, if_neg h]
        refine ⟨List.nodup_cons.mpr ⟨fun ha => ?_, hnodup⟩, fun b hb => ?_⟩
        · obtain ⟨b, hb, hkey⟩ := List.mem_map.mp ha
          exact hseen b hb (hkey ▸ List.mem_cons_self ..)
        · rcases List.mem_cons.mp hb with rfl | hb
          · exact h
          · exact fun hmem => hseen b hb (List.mem_cons_of_mem _ hmem)

omit [DecidableEq α] in
/-- The kept records have distinct keys. -/
theorem nodup_map_firstPerKey (key : α → κ) (l : List α) : ((firstPerKey key l).map key).Nodup :=
  (nodup_firstPerKeyAfter key [] l).1

omit [DecidableEq α] in
theorem firstPerKeyAfter_of_nodup {key : α → κ} {seen : List κ} {l : List α}
    (h : (l.map key).Nodup) (hseen : ∀ a ∈ l, key a ∉ seen) :
    firstPerKeyAfter key seen l = l ∧ repeatedKeysAfter key seen l = [] := by
  induction l generalizing seen with
  | nil => exact ⟨rfl, rfl⟩
  | cons a rest ih =>
      have ha : key a ∉ seen := hseen a (List.mem_cons_self ..)
      obtain ⟨hfresh, hrest⟩ := List.nodup_cons.mp h
      have hlater : ∀ b ∈ rest, key b ∉ key a :: seen := by
        intro b hb hmem
        rcases List.mem_cons.mp hmem with hkey | hmem
        · exact hfresh (hkey ▸ List.mem_map_of_mem hb)
        · exact hseen b (List.mem_cons_of_mem _ hb) hmem
      obtain ⟨hkept, hrepeated⟩ := ih hrest hlater
      rw [firstPerKeyAfter, repeatedKeysAfter, if_neg ha, if_neg ha, hkept]
      exact ⟨rfl, hrepeated⟩

omit [DecidableEq α] in
/-- Records with distinct keys are all kept. -/
theorem firstPerKey_of_nodup {key : α → κ} {l : List α} (h : (l.map key).Nodup) :
    firstPerKey key l = l ∧ repeatedKeys key l = [] :=
  firstPerKeyAfter_of_nodup h fun _ _ => List.not_mem_nil

section

variable {β : Type} {key : α → κ} {key' : β → κ} {f : α → β} (h : ∀ a, key' (f a) = key a)
include h

omit [DecidableEq α] in
theorem firstPerKeyAfter_map (seen : List κ) (l : List α) :
    firstPerKeyAfter key' seen (l.map f) = (firstPerKeyAfter key seen l).map f := by
  induction l generalizing seen with
  | nil => rfl
  | cons a rest ih =>
      rw [List.map_cons, firstPerKeyAfter, firstPerKeyAfter, h, ih, ih]
      split <;> rfl

omit [DecidableEq α] in
/-- A change of the records that keeps their keys does not change which of them are kept. -/
theorem firstPerKey_map (l : List α) :
    firstPerKey key' (l.map f) = (firstPerKey key l).map f :=
  firstPerKeyAfter_map h [] l

omit [DecidableEq α] in
theorem repeatedKeysAfter_map (seen : List κ) (l : List α) :
    repeatedKeysAfter key' seen (l.map f) = repeatedKeysAfter key seen l := by
  induction l generalizing seen with
  | nil => rfl
  | cons a rest ih =>
      rw [List.map_cons, repeatedKeysAfter, repeatedKeysAfter, h, ih, ih]

omit [DecidableEq α] in
/-- A change of the records that keeps their keys does not change which keys repeat. -/
theorem repeatedKeys_map (l : List α) : repeatedKeys key' (l.map f) = repeatedKeys key l :=
  repeatedKeysAfter_map h [] l

end

/-! ## Look-up by key -/

omit [DecidableEq α] [DecidableEq κ] in
/-- Among records with distinct keys the last record of a key is the only one. -/
theorem findRev?_eq_some_of_nodup [BEq κ] [LawfulBEq κ] {key : α → κ} {l : List α}
    (h : (l.map key).Nodup) {a : α} (ha : a ∈ l) : l.findRev? (key · == key a) = some a := by
  induction l with
  | nil => simp at ha
  | cons b rest ih =>
      obtain ⟨hfresh, hrest⟩ := List.nodup_cons.mp h
      rw [List.findRev?]
      rcases List.mem_cons.mp ha with rfl | ha
      · have hnone : rest.findRev? (key · == key a) = none := by
          rw [List.findRev?_eq_find?_reverse, List.find?_eq_none]
          intro c hc heq
          exact hfresh (eq_of_beq heq ▸ List.mem_map_of_mem (List.mem_reverse.mp hc))
        rw [hnone]
        simp
      · rw [ih hrest ha]

example : firstRepeat? ["A", "B", "C", "B", "A"] = some "B" := by decide
example : firstPerKey Prod.fst [(2, 'a'), (1, 'b'), (2, 'c')] = [(2, 'a'), (1, 'b')] := by decide
example : repeatedKeys Prod.fst [(2, 'a'), (1, 'b'), (2, 'c'), (2, 'd')] = [2, 2] := by decide

end BranchingStory
