import BranchingStory.Json.Record
import BranchingStory.Proofs.Json.Printing
import BranchingStory.Proofs.Lookup

/-!
# Reading records back

A value *encodes* a record for a reader if it is plain and the reader finds the record in it.  Then
the reader finds the record in the text of the value too (`Json.Encodes.parse?_pretty`).  A list, a
map or a set is encoded if its elements are.
-/

namespace BranchingStory.Json

/-- The value holds the record for a reader, and so does the text of the value. -/
structure Encodes {α : Type} (decode : Json → Option α) (v : Json) (a : α) : Prop where
  plain : v.Plain
  decodes : decode v = some a

variable {α : Type} {decode : Json → Option α} {encode : α → Json} {v : Json} {a : α}

theorem Encodes.parse?_pretty (h : Encodes decode v a) :
    (parse? v.pretty).bind decode = some a := by
  rw [Json.parse?_pretty h.plain]
  exact h.decodes

theorem encodes_string (s : String) : Encodes string? (.string s) s := ⟨.string s, rfl⟩

theorem encodes_nat {limit n : Nat} (h : n ≤ limit) : Encodes (natUpTo? limit) (.nat n) n :=
  ⟨.nat n, if_pos h⟩

/-- A variant that carries nothing is held by its name. -/
theorem encodes_name {ofName? : String → Option α} {name : String} (h : ofName? name = some a) :
    Encodes (unitVariant? ofName?) (.string name) a :=
  ⟨.string name, h⟩

theorem plain_ofList (l : List α) (h : ∀ a, (encode a).Plain) : (ofList encode l).Plain := by
  refine .array fun v hv => ?_
  obtain ⟨a, _, rfl⟩ := List.mem_map.mp hv
  exact h a

theorem encodes_ofList {l : List α} (h : ∀ a ∈ l, Encodes decode (encode a) a) :
    Encodes (list? decode) (ofList encode l) l := by
  refine ⟨.array fun v hv => ?_, mapM_map_eq_some fun a ha => (h a ha).decodes⟩
  obtain ⟨a, ha, rfl⟩ := List.mem_map.mp hv
  exact (h a ha).plain

theorem plain_ofMap {m : Std.ExtTreeMap String α compare} (h : ∀ a, (encode a).Plain) :
    (ofMap encode m).Plain := by
  refine .object fun field hfield => ?_
  obtain ⟨entry, _, rfl⟩ := List.mem_map.mp hfield
  exact h entry.2

theorem encodes_ofMap {m : Std.ExtTreeMap String α compare}
    (h : ∀ (key : String) a, m[key]? = some a → Encodes decode (encode a) a) :
    Encodes (map? decode) (ofMap encode m) m := by
  have hentry : ∀ entry ∈ m.toList, Encodes decode (encode entry.2) entry.2 := fun entry hmem =>
    h _ _ (Std.ExtTreeMap.mem_toList_iff_getElem?_eq_some.mp hmem)
  constructor
  · refine .object fun field hfield => ?_
    obtain ⟨entry, hmem, rfl⟩ := List.mem_map.mp hfield
    exact (hentry entry hmem).plain
  · have hfields : (m.toList.map fun entry => (entry.1, encode entry.2)).mapM
        (decodeField? decode) = some m.toList :=
      mapM_map_eq_some fun entry hmem => by simp [decodeField?, (hentry entry hmem).decodes]
    show Option.map _ ((m.toList.map fun entry => (entry.1, encode entry.2)).mapM _) = some m
    rw [hfields, Option.map_some, ofList_toList]

theorem encodes_ofSet (s : Std.ExtTreeSet String compare) : Encodes set? (ofSet s) s := by
  have hlist : Encodes (list? string?) (ofSet s) s.toList :=
    encodes_ofList fun name _ => encodes_string name
  refine ⟨hlist.plain, ?_⟩
  rw [set?, hlist.decodes, Option.map_some, ofList_toList_set]

end BranchingStory.Json
