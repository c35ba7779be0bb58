import Mathlib.Order.Bounds.Basic
import BranchingStory.Proofs.Chapter.Routes

/-!
# Closed sets of names

The checks of a chapter follow its links also where nodes share a name.  A link to the name then
leads to the last of them (`Chapter.IsLast`), so a set of names is *closed* if it holds what the
last node of each of its names leads to.  `Chapter.search_exact` says that the search of the checks
ends for every chapter, and that it finds the smallest closed set around the name where it begins.
No name has to be unique for that.
-/

namespace BranchingStory.Chapter

variable {c : Chapter} {a b start : String} {n : Node}

/-! ## The last node of a name -/

/-- No later node has the name of the node. -/
def IsLast (c : Chapter) (n : Node) : Prop :=
  ∃ before after, c.nodes = before ++ n :: after ∧ ∀ m ∈ after, m.id ≠ n.id

/-- The look-up of the checks finds the last node of the name. -/
theorem linked?_eq_some_iff : c.linked? a = some n ↔ c.IsLast n ∧ n.id = a := by
  rw [linked?, List.findRev?_eq_find?_reverse, List.find?_eq_some_iff_append, beq_iff_eq]
  constructor
  · rintro ⟨rfl, after, before, hreverse, hafter⟩
    refine ⟨⟨before.reverse, after.reverse, ?_, ?_⟩, rfl⟩
    · rw [← List.reverse_reverse c.nodes, hreverse]
      simp
    · simpa using hafter
  · rintro ⟨⟨before, after, hnodes, hafter⟩, rfl⟩
    refine ⟨rfl, after.reverse, before.reverse, ?_, ?_⟩
    · rw [hnodes]
      simp
    · simpa using hafter

/-- The graph of a chapter has the edges of the last nodes of their names. -/
theorem edge_graph_iff_isLast :
    c.graph.Edge a b ↔ ∃ n, c.IsLast n ∧ n.id = a ∧ b ∈ n.localTargets ∧ b ∈ c.ids := by
  constructor
  · rintro ⟨hnext, hb⟩
    cases hfound : c.linked? a with
    | none => simp [graph, hfound] at hnext
    | some n =>
        obtain ⟨hlast, hid⟩ := linked?_eq_some_iff.mp hfound
        exact ⟨n, hlast, hid, by simpa [graph, hfound] using hnext, hb⟩
  · rintro ⟨n, hlast, hid, hn, hb⟩
    have hfound : c.linked? a = some n := linked?_eq_some_iff.mpr ⟨hlast, hid⟩
    exact ⟨by simpa [graph, hfound] using hn, hb⟩

/-! ## Closed sets -/

/-- A set of names of nodes with `start` among them.  It holds what the last node of each of its
names leads to inside the chapter. -/
structure ClosedFrom (c : Chapter) (start : String) (names : Set String) : Prop where
  start_mem : start ∈ names
  subset_ids : ∀ id ∈ names, id ∈ c.ids
  closed : ∀ n, c.IsLast n → n.id ∈ names → ∀ id ∈ n.localTargets, id ∈ c.ids → id ∈ names

/-- A closed set holds all that paths from its start reach. -/
theorem ClosedFrom.mem_of_path {names : Set String} (h : c.ClosedFrom start names)
    (hpath : c.graph.Path start b) : b ∈ names := by
  induction hpath with
  | refl => exact h.start_mem
  | step _ he ih =>
      obtain ⟨n, hlast, rfl, hn, hb⟩ := edge_graph_iff_isLast.mp he
      exact h.closed n hlast ih _ hn hb

/-- What the search finds is closed. -/
theorem closedFrom_reachable (hstart : start ∈ c.ids) :
    c.ClosedFrom start {id | id ∈ c.graph.reachable start} where
  start_mem := Graph.mem_reachable_iff.mpr ⟨hstart, .refl⟩
  subset_ids id hid := by
    obtain ⟨_, hpath⟩ := Graph.mem_reachable_iff.mp hid
    exact hpath.mem_vertices hstart
  closed n hlast hn id hid hids := by
    obtain ⟨_, hpath⟩ := Graph.mem_reachable_iff.mp hn
    have hedge : c.graph.Edge n.id id := edge_graph_iff_isLast.mpr ⟨n, hlast, rfl, hid, hids⟩
    exact Graph.mem_reachable_iff.mpr ⟨hstart, hpath.step hedge⟩

/-- The search of a chapter ends, from whatever name.  It finds the smallest closed set around the
name, and nothing if the chapter has no node of the name. -/
theorem search_exact (c : Chapter) (start : String) :
    (∃ s, Loop.EndsIn c.graph.searchStep (c.graph.searchFrom start) s ∧
      s.visited = c.graph.reachable start) ∧
    (start ∉ c.ids → c.graph.reachable start = []) ∧
    (start ∈ c.ids →
      IsLeast {names | c.ClosedFrom start names} {id | id ∈ c.graph.reachable start}) := by
  refine ⟨?_, ?_, ?_⟩
  · obtain ⟨s, hend⟩ := Graph.exists_endsIn_searchStep c.graph start
    exact ⟨s, hend, (Graph.reachable_eq hend).symm⟩
  · intro hstart
    refine List.eq_nil_iff_forall_not_mem.mpr fun id hid => ?_
    obtain ⟨hids, _⟩ := Graph.mem_reachable_iff.mp hid
    exact hstart hids
  · intro hstart
    refine ⟨closedFrom_reachable hstart, ?_⟩
    intro names hnames id hid
    obtain ⟨_, hpath⟩ := Graph.mem_reachable_iff.mp hid
    exact hnames.mem_of_path hpath

/-- Two nodes of one name.  The last of them counts: it leads to itself, on to the stairs and to a
door that does not exist, and the first, which alone leads to the cellar, does not count. -/
def doubledHall : Chapter where
  number := 3
  title := ∅
  entry := "HALL"
  tracks := []
  nodes :=
    [⟨"HALL", .dialogue, none, ∅, .node "CELLAR", .shared, ∅⟩,
      ⟨"HALL", .choice, none, ∅, .choice [⟨∅, "STAIRS"⟩, ⟨∅, "DOOR"⟩, ⟨∅, "HALL"⟩], .shared, ∅⟩,
      ⟨"STAIRS", .dialogue, none, ∅, .node "HALL", .shared, ∅⟩,
      ⟨"CELLAR", .chapterEnd, none, ∅, .ending, .shared, ∅⟩]

theorem search_exact_doubledHall :
    (∃ s, Loop.EndsIn doubledHall.graph.searchStep (doubledHall.graph.searchFrom "HALL") s ∧
      s.visited = ["STAIRS", "HALL"]) ∧
    "HALL" ∈ doubledHall.ids ∧
    IsLeast {names | doubledHall.ClosedFrom "HALL" names} {id | id ∈ ["STAIRS", "HALL"]} ∧
    "DOOR" ∉ doubledHall.ids ∧ doubledHall.graph.reachable "DOOR" = [] := by
  have hfound : doubledHall.graph.reachable "HALL" = ["STAIRS", "HALL"] := by cbv
  have hhall : "HALL" ∈ doubledHall.ids := by decide
  have hdoor : "DOOR" ∉ doubledHall.ids := by decide
  obtain ⟨hend, _, hleast⟩ := search_exact doubledHall "HALL"
  obtain ⟨_, hnone, _⟩ := search_exact doubledHall "DOOR"
  rw [hfound] at hend hleast
  exact ⟨hend, hhall, hleast hhall, hdoor, hnone hdoor⟩

end BranchingStory.Chapter
