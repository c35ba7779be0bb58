import Mathlib.Data.List.Nodup
import Std.Data.ExtTreeMap
import Std.Data.ExtTreeSet

/-!
# Maps and lists

What a map holds, in terms of lists: the values of a map are those of its look-ups, and a map
made from a list with distinct keys looks up what the list holds.  A list of pairs is a map, too,
in which the first pair of a key counts.
-/

namespace BranchingStory

variable {β : Type} {t : Std.ExtTreeMap String β compare} {l : List (String × β)} {k : String}
  {v : β}

theorem values_eq_map_snd_toList (t : Std.ExtTreeMap String β compare) :
    t.values = t.toList.map Prod.snd := by
  have hfold : t.values = t.foldr (fun _ v rest => v :: rest) [] := by
    rcases t with ⟨⟨q⟩⟩
    induction q using Quotient.ind
    rfl
  rw [hfold, Std.ExtTreeMap.foldr_eq_foldr_toList]
  induction t.toList with
  | nil => rfl
  | cons a rest ih => rw [List.foldr_cons, ih, List.map_cons]

/-- The values of a map are those that some key has. -/
theorem mem_values_iff : v ∈ t.values ↔ ∃ k : String, t[k]? = some v := by
  rw [values_eq_map_snd_toList, List.mem_map]
  constructor
  · rintro ⟨⟨k, v⟩, hmem, rfl⟩
    exact ⟨k, Std.ExtTreeMap.mem_toList_iff_getElem?_eq_some.mp hmem⟩
  · rintro ⟨k, hk⟩
    exact ⟨(k, v), Std.ExtTreeMap.mem_toList_iff_getElem?_eq_some.mpr hk, rfl⟩

/-- What a map holds after several insertions was inserted or there before. -/
theorem mem_or_getElem?_of_insertMany (h : (t.insertMany l)[k]? = some v) :
    (k, v) ∈ l ∨ t[k]? = some v := by
  induction l generalizing t with
  | nil => exact .inr (Std.ExtTreeMap.insertMany_nil (t := t) ▸ h)
  | cons entry rest ih =>
      obtain ⟨key, w⟩ := entry
      rw [Std.ExtTreeMap.insertMany_cons] at h
      rcases ih h with hrest | hinsert
      · exact .inl (.tail _ hrest)
      · rw [Std.ExtTreeMap.getElem?_insert] at hinsert
        split at hinsert
        · obtain rfl : key = k := Std.LawfulEqOrd.compare_eq_iff_eq.mp ‹_›
          obtain rfl := Option.some.inj hinsert
          exact .inl (.head _)
        · exact .inr hinsert

theorem mem_of_getElem?_ofList (h : (Std.ExtTreeMap.ofList l compare)[k]? = some v) :
    (k, v) ∈ l := by
  rw [Std.ExtTreeMap.ofList_eq_insertMany_empty] at h
  exact (mem_or_getElem?_of_insertMany h).resolve_right (by simp)

/-- A map made from a list with distinct keys holds what the list holds. -/
theorem getElem?_ofList_eq_some_iff (h : (l.map Prod.fst).Nodup) :
    (Std.ExtTreeMap.ofList l compare)[k]? = some v ↔ (k, v) ∈ l := by
  have hdistinct : l.Pairwise fun a b => ¬ compare a.1 b.1 = .eq := by
    refine (List.pairwise_map.mp h).imp fun hne heq => hne ?_
    exact Std.LawfulEqOrd.compare_eq_iff_eq.mp heq
  have hmem : ∀ v, (k, v) ∈ l → (Std.ExtTreeMap.ofList l compare)[k]? = some v := fun v hv =>
    Std.ExtTreeMap.getElem?_ofList_of_mem (Std.LawfulEqOrd.compare_eq_iff_eq.mpr rfl) hdistinct hv
  exact ⟨mem_of_getElem?_ofList, hmem v⟩

theorem ofList_toList (t : Std.ExtTreeMap String β compare) :
    Std.ExtTreeMap.ofList t.toList compare = t := by
  have hkeys : (t.toList.map Prod.fst).Nodup := by
    rw [Std.ExtTreeMap.map_fst_toList_eq_keys]
    exact Std.ExtTreeMap.nodup_keys
  refine Std.ExtTreeMap.ext_getElem? fun k => Option.ext fun v => ?_
  rw [getElem?_ofList_eq_some_iff hkeys, Std.ExtTreeMap.mem_toList_iff_getElem?_eq_some]

theorem ofList_toList_set (s : Std.ExtTreeSet String compare) :
    Std.ExtTreeSet.ofList s.toList compare = s := by
  refine Std.ExtTreeSet.ext_mem fun k => ?_
  rw [Std.ExtTreeSet.mem_ofList, List.contains_iff_mem, Std.ExtTreeSet.mem_toList]

/-! ## Lists of pairs -/

section

variable {α β : Type} [DecidableEq α] {l : List (α × β)} {a b : α} {v : β}

theorem lookup_cons_eq_ite : ((a, v) :: l).lookup b = if b = a then some v else l.lookup b := by
  by_cases h : b = a
  · simp [h]
  · rw [List.lookup_cons, beq_false_of_ne h, if_neg h]

/-- What a list looks up it holds. -/
theorem mem_of_lookup (h : l.lookup a = some v) : (a, v) ∈ l := by
  obtain ⟨_, _, rfl, _⟩ := List.lookup_eq_some_iff.mp h
  simp

/-- A list looks up exactly the keys that it holds. -/
theorem lookup_ne_none_iff : l.lookup a ≠ none ↔ a ∈ l.map Prod.fst := by
  rw [← Option.isSome_iff_ne_none, List.lookup_isSome_iff, List.mem_map]
  simp only [beq_iff_eq]
  exact exists_congr fun _ => and_congr_right fun _ => eq_comm

end

end BranchingStory
