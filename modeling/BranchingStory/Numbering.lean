/-!
# The order of numbers

Chapters and cases are numbered, and whatever lists them goes by number.  Records of
one number keep the order they had.
-/

namespace BranchingStory

variable {α : Type}

/-- A list in the order of its numbers.  Elements of one number keep their order. -/
def sortByNumber (number : α → Nat) (l : List α) : List α :=
  l.mergeSort fun a b => number a ≤ number b

/-- Sorting loses nothing and adds nothing. -/
theorem perm_sortByNumber (number : α → Nat) (l : List α) : (sortByNumber number l).Perm l :=
  List.mergeSort_perm ..

theorem mem_sortByNumber {number : α → Nat} {l : List α} {a : α} :
    a ∈ sortByNumber number l ↔ a ∈ l :=
  (perm_sortByNumber number l).mem_iff

theorem decide_number_le_trans (number : α → Nat) (a b c : α)
    (hab : decide (number a ≤ number b) = true) (hbc : decide (number b ≤ number c) = true) :
    decide (number a ≤ number c) = true :=
  decide_eq_true (Nat.le_trans (of_decide_eq_true hab) (of_decide_eq_true hbc))

theorem decide_number_le_total (number : α → Nat) (a b : α) :
    (decide (number a ≤ number b) || decide (number b ≤ number a)) = true := by
  simpa using Nat.le_total (number a) (number b)

/-- A sorted list goes by number. -/
theorem pairwise_sortByNumber (number : α → Nat) (l : List α) :
    (sortByNumber number l).Pairwise fun a b => number a ≤ number b :=
  (List.pairwise_mergeSort (decide_number_le_trans number) (decide_number_le_total number) l).imp
    of_decide_eq_true

/-- Records that go by number already keep their order. -/
theorem sublist_sortByNumber {number : α → Nat} {l sorted : List α}
    (h : sorted.Pairwise fun a b => number a ≤ number b) (hsub : sorted.Sublist l) :
    sorted.Sublist (sortByNumber number l) :=
  List.sublist_mergeSort (decide_number_le_trans number) (decide_number_le_total number)
    (h.imp decide_eq_true) hsub

/-- A list that goes by number is left alone. -/
theorem sortByNumber_of_pairwise {number : α → Nat} {l : List α}
    (h : l.Pairwise fun a b => number a ≤ number b) : sortByNumber number l = l :=
  List.mergeSort_of_pairwise (h.imp decide_eq_true)

/-- Sorting goes with a change of the elements that keeps their numbers. -/
theorem sortByNumber_map {β : Type} {number : α → Nat} {number' : β → Nat} {f : α → β}
    (h : ∀ a, number' (f a) = number a) (l : List α) :
    sortByNumber number' (l.map f) = (sortByNumber number l).map f := by
  refine (List.map_mergeSort fun a _ b _ => ?_).symm
  rw [h, h]

theorem sortByNumber_nil (number : α → Nat) : sortByNumber number [] = [] :=
  sortByNumber_of_pairwise .nil

example :
    sortByNumber Prod.fst [(2, 'a'), (1, 'b'), (2, 'c')] = [(1, 'b'), (2, 'a'), (2, 'c')] := by
  cbv

end BranchingStory
