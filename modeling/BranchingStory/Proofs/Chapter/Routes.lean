import Mathlib.Data.List.Nodup
import BranchingStory.Check.Chapter
import BranchingStory.Proofs.Graph.Search

/-!
# Routes inside a chapter

A *route* follows the local links of a chapter from the name of one node to the name of
another.  It is a relation on the list of nodes and knows nothing of the search that the
checks run.  `Chapter.mem_reachable_graph_iff` says that the search finds exactly what routes
reach, provided that the nodes have distinct names.
-/

namespace BranchingStory

namespace Chapter

variable {c : Chapter} {a b : String} {n : Node}

/-! ## Local links -/

/-- A local link of a node named `a` leads to a node named `b`. -/
def Leads (c : Chapter) (a b : String) : Prop :=
  ∃ n ∈ c.nodes, n.id = a ∧ b ∈ n.localTargets ∧ b ∈ c.ids

/-- Local links lead from `a` to `b`, one after another. -/
def Route (c : Chapter) (a b : String) : Prop := Relation.ReflTransGen c.Leads a b

theorem Route.refl (a : String) : c.Route a a := Relation.ReflTransGen.refl

/-- A route may go on along the link of a node it reaches. -/
theorem Route.tail (h : c.Route a n.id) (hn : n ∈ c.nodes) (ht : b ∈ n.localTargets)
    (hb : b ∈ c.ids) : c.Route a b :=
  Relation.ReflTransGen.tail h ⟨n, hn, rfl, ht, hb⟩

/-- A route from a node ends at a node. -/
theorem Route.mem_ids (h : c.Route a b) (ha : a ∈ c.ids) : b ∈ c.ids := by
  induction h with
  | refl => exact ha
  | tail _ hleads _ =>
      obtain ⟨_, _, _, _, hb⟩ := hleads
      exact hb

/-! ## Nodes by name -/

theorem mem_ids_iff : a ∈ c.ids ↔ ∃ n ∈ c.nodes, n.id = a := List.mem_map

theorem id_mem_ids (hn : n ∈ c.nodes) : n.id ∈ c.ids := List.mem_map_of_mem hn

/-- In a chapter with distinct names two nodes of one name are the same node. -/
theorem node_ext (hids : c.ids.Nodup) {m : Node} (hn : n ∈ c.nodes) (hm : m ∈ c.nodes)
    (h : n.id = m.id) : n = m :=
  List.inj_on_of_nodup_map hids hn hm h

/-- The look-up of the checks finds the node of the name. -/
theorem linked?_eq_some (hids : c.ids.Nodup) (hn : n ∈ c.nodes) : c.linked? n.id = some n :=
  findRev?_eq_some_of_nodup hids hn

/-! ## The search of the checks -/

/-- The graph of a chapter has the edges that its links give. -/
theorem edge_graph_iff (hids : c.ids.Nodup) (ha : a ∈ c.ids) :
    c.graph.Edge a b ↔ c.Leads a b := by
  obtain ⟨n, hn, rfl⟩ := mem_ids_iff.mp ha
  have hnext : c.graph.next n.id = n.localTargets := by
    simp [graph, linked?_eq_some hids hn]
  constructor
  · rintro ⟨ht, hb⟩
    rw [hnext] at ht
    exact ⟨n, hn, rfl, ht, hb⟩
  · rintro ⟨m, hm, hid, ht, hb⟩
    obtain rfl := node_ext hids hm hn hid
    exact ⟨hnext ▸ ht, hb⟩

/-- From a node of the chapter the paths of the graph are the routes. -/
theorem path_graph_iff (hids : c.ids.Nodup) (ha : a ∈ c.ids) :
    c.graph.Path a b ↔ c.Route a b := by
  rw [Graph.path_iff_reflTransGen]
  constructor
  · intro h
    induction h with
    | refl => exact Route.refl a
    | tail _ e ih =>
        exact Relation.ReflTransGen.tail ih ((edge_graph_iff hids (ih.mem_ids ha)).mp e)
  · intro h
    induction h with
    | refl => exact .refl
    | tail hroute hleads ih =>
        have hmem := Route.mem_ids hroute ha
        exact ih.tail ((edge_graph_iff hids hmem).mpr hleads)

/-- The search finds exactly what routes reach. -/
theorem mem_reachable_graph_iff (hids : c.ids.Nodup) :
    b ∈ c.graph.reachable a ↔ a ∈ c.ids ∧ c.Route a b := by
  rw [Graph.mem_reachable_iff]
  exact and_congr_right fun ha => path_graph_iff hids ha

end Chapter

end BranchingStory
