import Mathlib.Data.List.Sort
import Mathlib.Data.String.Basic
import Std.Data.ExtTreeMap

/-!
# Texts in order

A list *enumerates* the texts with a property if it holds exactly these, in order and each once.
No two lists enumerate the same texts (`Enumerates.unique`), so the lengths of such lists count
the texts.  Those of the texts with a property and of the texts without it add up
(`Enumerates.length_add_length`).  A map keyed by text lists its keys this way.
-/

namespace BranchingStory

/-- The list holds exactly the texts with the property, in order and each once. -/
structure Enumerates (l : List String) (p : String → Prop) : Prop where
  ordered : l.Pairwise (· < ·)
  mem_iff : ∀ s, s ∈ l ↔ p s

namespace Enumerates

variable {l l' present missing : List String} {p q : String → Prop}

theorem congr (h : Enumerates l p) (hpq : ∀ s, p s ↔ q s) : Enumerates l q where
  ordered := h.ordered
  mem_iff s := (h.mem_iff s).trans (hpq s)

/-- No two lists enumerate the same texts. -/
theorem unique (h : Enumerates l p) (h' : Enumerates l' p) : l = l' :=
  h.ordered.eq_of_mem_iff h'.ordered fun s => (h.mem_iff s).trans (h'.mem_iff s).symm

theorem filter (h : Enumerates l p) (f : String → Bool) :
    Enumerates (l.filter f) fun s => p s ∧ f s = true where
  ordered := h.ordered.filter f
  mem_iff s := by rw [List.mem_filter, h.mem_iff]

/-- A listed text stands between those before it and those after it, none of which is the same. -/
theorem exists_split {s : String} (h : Enumerates l p) (hs : p s) :
    ∃ earlier later, l = earlier ++ s :: later ∧ ∀ s' ∈ earlier ++ later, p s' ∧ s' ≠ s := by
  obtain ⟨earlier, later, rfl⟩ := List.append_of_mem ((h.mem_iff s).mpr hs)
  obtain ⟨_, hlater, hearlier⟩ := List.pairwise_append.mp h.ordered
  refine ⟨earlier, later, rfl, fun s' hs' => ?_⟩
  rcases List.mem_append.mp hs' with hs' | hs'
  · exact ⟨(h.mem_iff s').mp (List.mem_append_left _ hs'), (hearlier s' hs' s (.head _)).ne⟩
  · exact ⟨(h.mem_iff s').mp (List.mem_append_right _ (.tail _ hs')),
      ((List.pairwise_cons.mp hlater).1 s' hs').ne'⟩

/-- Of the listed texts as many have a property as do not lack it. -/
theorem length_add_length [DecidablePred q] (h : Enumerates l p)
    (hpresent : Enumerates present fun s => p s ∧ q s)
    (hmissing : Enumerates missing fun s => p s ∧ ¬ q s) :
    missing.length + present.length = l.length := by
  have hpresent' : present = l.filter fun s => decide (q s) :=
    hpresent.unique ((h.filter _).congr fun s => by simp)
  have hmissing' : missing = l.filter fun s => !decide (q s) :=
    hmissing.unique ((h.filter _).congr fun s => by simp)
  have hsplit := List.length_eq_length_filter_add (l := l) fun s => decide (q s)
  rw [hpresent', hmissing', hsplit, Nat.add_comm]

end Enumerates

theorem enumerates_keys {β : Type} (t : Std.ExtTreeMap String β compare) :
    Enumerates t.keys (· ∈ t) where
  ordered := t.ordered_keys.imp compare_lt_iff_lt.mp
  mem_iff _ := Std.ExtTreeMap.mem_keys

end BranchingStory
