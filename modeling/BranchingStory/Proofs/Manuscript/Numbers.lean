import Mathlib.Data.List.Basic
import BranchingStory.Numbering
import BranchingStory.Repetition
import BranchingStory.Results

/-!
# Records by number

What a build does with a record depends on its number and on which of the records of that
number come before it.  `ofNumber` is this view of a list: the records of one number, in
order.  Sorting by number keeps the view (`ofNumber_sortByNumber`), a sorted list is determined
by it (`eq_of_ofNumber_eq`), and keeping the first record of each number cuts it to its first
element (`ofNumber_firstPerKey`).
-/

namespace BranchingStory

variable {α : Type} {number : α → Nat} {l l' : List α} {n : Nat}

/-- The records of a number, in order. -/
def ofNumber (number : α → Nat) (n : Nat) (l : List α) : List α := l.filter (number · = n)

theorem mem_ofNumber {a : α} : a ∈ ofNumber number n l ↔ a ∈ l ∧ number a = n := by
  simp [ofNumber]

theorem ofNumber_cons (a : α) :
    ofNumber number n (a :: l) =
      if number a = n then a :: ofNumber number n l else ofNumber number n l := by
  simp [ofNumber, List.filter_cons]

/-! ## Sorting -/

/-- Distinct numbers strictly increase once they are sorted. -/
theorem pairwise_lt_sortByNumber (h : (l.map number).Nodup) :
    (sortByNumber number l).Pairwise fun a b => number a < number b := by
  have hdistinct : ((sortByNumber number l).map number).Nodup :=
    ((perm_sortByNumber number l).map number).nodup_iff.mpr h
  exact (pairwise_sortByNumber number l).imp₂ (fun _ _ => Nat.lt_of_le_of_ne)
    (List.pairwise_map.mp hdistinct)

/-- The records of one number keep their order when a list is sorted. -/
theorem ofNumber_sortByNumber (number : α → Nat) (n : Nat) (l : List α) :
    ofNumber number n (sortByNumber number l) = ofNumber number n l := by
  have hsame : (ofNumber number n l).Pairwise fun a b => number a ≤ number b := by
    refine List.pairwise_of_forall_mem_list fun a ha b hb => ?_
    exact Nat.le_of_eq ((mem_ofNumber.mp ha).2.trans (mem_ofNumber.mp hb).2.symm)
  have hsub := (sublist_sortByNumber hsame List.filter_sublist).filter (number · = n)
  simp only [ofNumber, List.filter_filter, Bool.and_self] at hsub
  exact (hsub.eq_of_length ((perm_sortByNumber number l).filter _).length_eq.symm).symm

/-- The first number of a list that goes by number is the lowest of any list with the same
records. -/
theorem le_of_ofNumber_eq {a b : α} (hl : (a :: l).Pairwise fun a b => number a ≤ number b)
    (h : ∀ n, ofNumber number n (a :: l) = ofNumber number n l') (hb : b ∈ l') :
    number a ≤ number b := by
  have hmem : b ∈ ofNumber number (number b) (a :: l) := by
    rw [h]
    exact mem_ofNumber.mpr ⟨hb, rfl⟩
  rcases List.mem_cons.mp (mem_ofNumber.mp hmem).1 with rfl | hb
  · exact Nat.le_refl _
  · exact (List.pairwise_cons.mp hl).1 b hb

/-- A list in the order of its numbers is determined by the records of each number. -/
theorem eq_of_ofNumber_eq (hl : l.Pairwise fun a b => number a ≤ number b)
    (hl' : l'.Pairwise fun a b => number a ≤ number b)
    (h : ∀ n, ofNumber number n l = ofNumber number n l') : l = l' := by
  induction l generalizing l' with
  | nil =>
      refine (List.eq_nil_iff_forall_not_mem.mpr fun a ha => ?_).symm
      have hmem : a ∈ ofNumber number (number a) l' := mem_ofNumber.mpr ⟨ha, rfl⟩
      rw [← h] at hmem
      simp [ofNumber] at hmem
  | cons a rest ih =>
      cases l' with
      | nil => simpa [ofNumber_cons, ofNumber] using h (number a)
      | cons b rest' =>
          -- Both lists begin with the first record of the lowest number.
          have hnumber : number b = number a :=
            Nat.le_antisymm (le_of_ofNumber_eq hl' (fun n => (h n).symm) (List.mem_cons_self ..))
              (le_of_ofNumber_eq hl h (List.mem_cons_self ..))
          have hheads := h (number a)
          rw [ofNumber_cons, ofNumber_cons, if_pos rfl, if_pos hnumber] at hheads
          obtain ⟨rfl, _⟩ := List.cons.inj hheads
          refine congrArg _ (ih hl.of_cons hl'.of_cons fun n => ?_)
          have hn := h n
          rw [ofNumber_cons, ofNumber_cons] at hn
          by_cases hna : number a = n
          · rw [if_pos hna, if_pos hna] at hn
            exact List.tail_eq_of_cons_eq hn
          · rwa [if_neg hna, if_neg hna] at hn

/-- Sorting looks at nothing but the records of each number. -/
theorem sortByNumber_congr (h : ∀ n, ofNumber number n l = ofNumber number n l') :
    sortByNumber number l = sortByNumber number l' := by
  refine eq_of_ofNumber_eq (pairwise_sortByNumber _ _) (pairwise_sortByNumber _ _) fun n => ?_
  rw [ofNumber_sortByNumber, ofNumber_sortByNumber, h]

/-! ## The first record of each number -/

theorem ofNumber_firstPerKeyAfter (number : α → Nat) (seen : List Nat) (n : Nat) (l : List α) :
    ofNumber number n (firstPerKeyAfter number seen l) =
      if n ∈ seen then [] else (ofNumber number n l).take 1 := by
  induction l generalizing seen with
  | nil => simp [firstPerKeyAfter, ofNumber]
  | cons a rest ih =>
      by_cases hseen : number a ∈ seen
      · rw [firstPerKeyAfter, if_pos hseen, ih, ofNumber_cons]
        by_cases hn : number a = n
        · rw [if_pos (hn ▸ hseen), if_pos (hn ▸ hseen)]
        · rw [if_neg hn]
      · rw [firstPerKeyAfter, if_neg hseen, ofNumber_cons, ofNumber_cons, ih]
        by_cases hn : number a = n
        · subst hn
          simp [hseen]
        · have hmem : n ∈ number a :: seen ↔ n ∈ seen := by simp [Ne.symm hn]
          simp only [hn, if_false, hmem]

/-- Of the records of a number the first is kept. -/
theorem ofNumber_firstPerKey (number : α → Nat) (n : Nat) (l : List α) :
    ofNumber number n (firstPerKey number l) = (ofNumber number n l).take 1 := by
  rw [firstPerKey, ofNumber_firstPerKeyAfter, if_neg List.not_mem_nil]

theorem count_repeatedKeysAfter (number : α → Nat) (seen : List Nat) (n : Nat) (l : List α) :
    (repeatedKeysAfter number seen l).count n =
      if n ∈ seen then (ofNumber number n l).length else (ofNumber number n l).length - 1 := by
  induction l generalizing seen with
  | nil => simp [repeatedKeysAfter, ofNumber]
  | cons a rest ih =>
      by_cases hseen : number a ∈ seen
      · rw [repeatedKeysAfter, if_pos hseen, List.count_cons, ih, ofNumber_cons]
        by_cases hn : number a = n
        · subst hn
          simp [hseen]
        · simp [hn]
      · rw [repeatedKeysAfter, if_neg hseen, ih, ofNumber_cons]
        by_cases hn : number a = n
        · subst hn
          simp [hseen]
        · have hmem : n ∈ number a :: seen ↔ n ∈ seen := by simp [Ne.symm hn]
          simp only [hn, if_false, hmem]

/-- Of the records of a number all but the first are repeated. -/
theorem count_repeatedKeys (number : α → Nat) (n : Nat) (l : List α) :
    (repeatedKeys number l).count n = (ofNumber number n l).length - 1 := by
  rw [repeatedKeys, count_repeatedKeysAfter, if_neg List.not_mem_nil]

/-- The kept records in the order of their numbers, which strictly increase. -/
theorem pairwise_lt_sortByNumber_firstPerKey (number : α → Nat) (l : List α) :
    (sortByNumber number (firstPerKey number l)).Pairwise fun a b => number a < number b :=
  pairwise_lt_sortByNumber (nodup_map_firstPerKey number l)

/-- A step that keeps the number of a record keeps the order of the numbers. -/
theorem pairwise_lt_successes {ε β : Type} {f : β → Except ε α} {number' : β → Nat}
    (hnumber : ∀ b a, f b = .ok a → number a = number' b) {l : List β}
    (h : l.Pairwise fun b c => number' b < number' c) :
    (successes (l.map f)).Pairwise fun a b => number a < number b :=
  List.pairwise_map.mp ((List.pairwise_map.mpr h).sublist (map_successes_sublist hnumber l))

/-! ## Results of one number -/

section

variable {ε β : Type} {number' : β → Nat} {drafts : List β}

/-- The values of some numbers come of the records of these numbers. -/
theorem filter_successes {f : β → Except ε α}
    (hnumber : ∀ b a, f b = .ok a → number a = number' b) (P : Nat → Bool) :
    (successes (drafts.map f)).filter (fun a => P (number a)) =
      successes ((drafts.filter fun b => P (number' b)).map f) := by
  induction drafts with
  | nil => rfl
  | cons b rest ih =>
      rw [List.map_cons, List.filter_cons]
      cases hb : f b with
      | ok a =>
          rw [successes_cons_ok, List.filter_cons, hnumber b a hb, ih]
          cases P (number' b) with
          | true => rw [if_pos rfl, if_pos rfl, List.map_cons, hb, successes_cons_ok]
          | false => rfl
      | error e =>
          rw [successes_cons_error, ih]
          cases P (number' b) with
          | true => rw [if_pos rfl, List.map_cons, hb, successes_cons_error]
          | false => rfl

/-- The values of a number come of the records of the number. -/
theorem ofNumber_successes {f : β → Except ε α}
    (hnumber : ∀ b a, f b = .ok a → number a = number' b) :
    ofNumber number n (successes (drafts.map f)) =
      successes ((ofNumber number' n drafts).map f) :=
  filter_successes hnumber fun k => k = n

/-- The errors about some numbers come of the records of these numbers. -/
theorem filter_flatten_failures {f : β → Except (List ε) α} {P : Nat → Bool} {Q : ε → Bool}
    (hQ : ∀ b errors, f b = .error errors → ∀ x ∈ errors, Q x = P (number' b)) :
    (failures (drafts.map f)).flatten.filter Q =
      (failures ((drafts.filter fun b => P (number' b)).map f)).flatten := by
  induction drafts with
  | nil => rfl
  | cons b rest ih =>
      rw [List.map_cons, List.filter_cons]
      cases hb : f b with
      | ok a =>
          rw [failures_cons_ok, ih]
          cases P (number' b) with
          | true => rw [if_pos rfl, List.map_cons, hb, failures_cons_ok]
          | false => rfl
      | error errors =>
          have hsame : errors.filter Q = errors.filter fun _ => P (number' b) :=
            List.filter_congr (hQ b errors hb)
          rw [failures_cons_error, List.flatten_cons, List.filter_append, ih, hsame]
          cases P (number' b) with
          | true =>
              rw [if_pos rfl, List.map_cons, hb, failures_cons_error, List.flatten_cons,
                List.filter_true]
          | false => rw [List.filter_false, List.nil_append, if_neg Bool.false_ne_true]

end

end BranchingStory
