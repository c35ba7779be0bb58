import Mathlib.Tactic.IntervalCases
import Std.Data.String.ToNat
import BranchingStory.Text.Padding

/-!
# Numbers in names

A number that is part of a name is written in digits alone.  So it is no word, and whatever is
no digit stands outside of it.  Padding with zeros does not change which number is written
(`threeDigits_inj`).

Names are put together with separators.  If a separator does not occur in the parts before it, or
not in the parts after it, then the name says what its parts are (`append_separator_inj`).
-/

namespace BranchingStory

/-- What stands before and after a separator is determined if the separator is the first of its
kind, or if it is the last. -/
theorem append_separator_inj {α : Type} {separator : α} {a b x y : List α}
    (h : separator ∉ a ∧ separator ∉ b ∨ separator ∉ x ∧ separator ∉ y) :
    a ++ separator :: x = b ++ separator :: y ↔ a = b ∧ x = y := by
  constructor
  · intro heq
    -- Otherwise the longer of the parts before holds the other separator, and so does the
    -- longer of the parts after.
    rcases List.append_eq_append_iff.mp heq with ⟨d, hb, hx⟩ | ⟨d, ha, hy⟩
    · cases d with
      | nil => simp_all
      | cons c d => simp_all
    · cases d with
      | nil => simp_all
      | cons c d => simp_all
  · rintro ⟨rfl, rfl⟩
    rfl

theorem isDigit_of_mem_toDigits {c : Char} {n : Nat} (h : c ∈ Nat.toDigits 10 n) :
    c.isDigit = true :=
  Nat.isDigit_of_mem_toDigits (by decide) (by decide) h

theorem exists_cons_toDigits (n : Nat) :
    ∃ d ds, Nat.toDigits 10 n = d :: ds ∧ d.isDigit = true := by
  obtain ⟨d, ds, h⟩ := List.exists_cons_of_ne_nil (Nat.toDigits_ne_nil (b := 10) (n := n))
  exact ⟨d, ds, h, isDigit_of_mem_toDigits (h ▸ List.mem_cons_self)⟩

/-- A number other than zero is written without a zero in front. -/
theorem head?_toDigits_ne_zero {n : Nat} (hn : n ≠ 0) : (Nat.toDigits 10 n).head? ≠ some '0' := by
  induction n using Nat.strong_induction_on with
  | h n ih =>
      by_cases hlt : n < 10
      · rw [Nat.toDigits_of_lt_base hlt]
        interval_cases n <;> simp_all
      · have hhead := ih (n / 10) (by omega) (by omega)
        obtain ⟨d, ds, hdigits, _⟩ := exists_cons_toDigits (n / 10)
        rw [Nat.toDigits_of_base_le (by decide) (by omega), hdigits]
        rwa [hdigits] at hhead

theorem isDigit_of_mem_repr {c : Char} {n : Nat} (h : c ∈ n.repr.toList) : c.isDigit = true := by
  rw [Nat.toList_repr] at h
  exact isDigit_of_mem_toDigits h

theorem notMem_repr {c : Char} (hc : c.isDigit = false) (n : Nat) : c ∉ n.repr.toList := by
  intro h
  rw [isDigit_of_mem_repr h] at hc
  cases hc

/-- A number is no word. -/
theorem repr_ne_word {word : String} (hword : word.toList.all (!·.isDigit)) (n : Nat) :
    n.repr ≠ word := by
  rintro rfl
  obtain ⟨d, ds, hdigits, hd⟩ := exists_cons_toDigits n
  have hmem : d ∈ n.repr.toList := by
    rw [Nat.toList_repr, hdigits]
    exact List.mem_cons_self
  simpa [hd] using List.all_eq_true.mp hword d hmem

/-- A padded number is written in digits alone. -/
theorem isDigit_of_mem_threeDigits {c : Char} {n : Nat}
    (h : c ∈ (Text.threeDigits n).toList) : c.isDigit = true := by
  rw [Text.threeDigits, Text.toList_padLeft, List.mem_append, List.mem_replicate] at h
  rcases h with ⟨_, rfl⟩ | h
  · rfl
  · exact isDigit_of_mem_repr h

theorem ofDigitChars_threeDigits (n : Nat) :
    Nat.ofDigitChars 10 (Text.threeDigits n).toList 0 = n := by
  rw [Text.threeDigits, Text.toList_padLeft, Nat.toList_repr, Nat.ofDigitChars_append,
    Nat.ofDigitChars_replicate_zero, Nat.mul_zero,
    Nat.ofDigitChars_toDigits (by decide) (by decide)]

/-- Different numbers are written differently, be they padded or too long for it. -/
theorem threeDigits_inj {n k : Nat} : Text.threeDigits n = Text.threeDigits k ↔ n = k := by
  constructor
  · intro h
    rw [← ofDigitChars_threeDigits n, h, ofDigitChars_threeDigits]
  · rintro rfl
    rfl

end BranchingStory
