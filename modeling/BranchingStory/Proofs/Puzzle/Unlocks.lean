import BranchingStory.Check.Case
import BranchingStory.Proofs.Graph.Survey
import BranchingStory.Proofs.Graph.Walk

/-!
# Unlocks

What the questions of a case unlock is a relation on their names (`Case.Unlocks`).  It is a relation
on the list of questions and knows nothing of the graph that the checks walk.  Provided that the
names are distinct, the edges of that graph are the unlocks, and what the walk and the survey find
out about it is true of the case.
-/

namespace BranchingStory.Case

variable {c : Case} {q : Question} {a b : String}

/-! ## Questions by name -/

theorem mem_ids_iff : a ∈ c.ids ↔ ∃ q ∈ c.questions, q.id = a := List.mem_map

theorem id_mem_ids (hq : q ∈ c.questions) : q.id ∈ c.ids := List.mem_map_of_mem hq

/-- The look-up of the checks finds the question of the name. -/
theorem unlocked?_eq_some (hids : c.ids.Nodup) (hq : q ∈ c.questions) :
    c.unlocked? q.id = some q :=
  findRev?_eq_some_of_nodup hids hq

/-- The look-up finds nothing but questions of the name. -/
theorem mem_questions_of_unlocked? (h : c.unlocked? a = some q) : q ∈ c.questions ∧ q.id = a := by
  rw [unlocked?, List.findRev?_eq_find?_reverse] at h
  exact ⟨List.mem_reverse.mp (List.mem_of_find?_eq_some h), by simpa using List.find?_some h⟩

/-- The graph of a case has an edge from a question to each one that it unlocks. -/
theorem edge_graph_iff (hids : c.ids.Nodup) (hq : q ∈ c.questions) :
    c.graph.Edge q.id b ↔ b ∈ q.targets ∧ b ∈ c.ids := by
  simp [Graph.Edge, graph, unlocked?_eq_some hids hq]

/-! ## The relation -/

/-- A question named `a` unlocks a question of the case named `b`. -/
def Unlocks (c : Case) (a b : String) : Prop :=
  ∃ q ∈ c.questions, q.id = a ∧ b ∈ q.targets ∧ b ∈ c.ids

/-- Some questions unlock each other in a circle. -/
def Circular (c : Case) : Prop := ∃ a, Relation.TransGen c.Unlocks a a

/-- From a question named `a` unlocks lead, one after another, to one that unlocks the solution. -/
def LeadsToSolution (c : Case) (a : String) : Prop :=
  ∃ q ∈ c.questions, Relation.ReflTransGen c.Unlocks a q.id ∧ .solution ∈ q.unlocks

/-- The edges of the graph are the unlocks. -/
theorem edge_graph_eq (hids : c.ids.Nodup) : c.graph.Edge = c.Unlocks := by
  funext a b
  refine propext ⟨?_, ?_⟩
  · intro he
    cases hfound : c.unlocked? a with
    | none => simp [Graph.Edge, graph, hfound] at he
    | some q =>
        obtain ⟨hq, rfl⟩ := mem_questions_of_unlocked? hfound
        exact ⟨q, hq, rfl, (edge_graph_iff hids hq).mp he⟩
  · rintro ⟨q, hq, rfl, hb⟩
    exact (edge_graph_iff hids hq).mpr hb

theorem path_graph_iff (hids : c.ids.Nodup) :
    c.graph.Path a b ↔ Relation.ReflTransGen c.Unlocks a b := by
  rw [Graph.path_iff_reflTransGen, edge_graph_eq hids]

theorem circular_graph_iff (hids : c.ids.Nodup) :
    c.graph.Circular a ↔ Relation.TransGen c.Unlocks a a := by
  rw [Graph.circular_iff_transGen, edge_graph_eq hids]

theorem solves_iff (hids : c.ids.Nodup) (hq : q ∈ c.questions) :
    c.solves q.id = true ↔ .solution ∈ q.unlocks := by
  simp [solves, unlocked?_eq_some hids hq, Question.solves]

theorem leadsTo_graph_iff (hids : c.ids.Nodup) (ha : a ∈ c.ids) :
    c.graph.LeadsTo c.solves a ↔ c.LeadsToSolution a := by
  constructor
  · rintro ⟨b, hpath, hsolves⟩
    obtain ⟨q, hq, rfl⟩ := mem_ids_iff.mp (hpath.mem_vertices ha)
    exact ⟨q, hq, (path_graph_iff hids).mp hpath, (solves_iff hids hq).mp hsolves⟩
  · rintro ⟨q, hq, hpath, hsolution⟩
    exact ⟨q.id, (path_graph_iff hids).mpr hpath, (solves_iff hids hq).mpr hsolution⟩

/-! ## The findings of the checks -/

theorem ids_subset_walkOrder : c.ids ⊆ c.walkOrder := List.subset_append_right _ _

/-- The walk finds no circle exactly if there is none. -/
theorem cycles_eq_nil_iff : c.cycles = [] ↔ ∀ a, ¬ c.graph.Circular a :=
  Graph.cyclesFrom_eq_nil_iff ids_subset_walkOrder

/-- In a case without circles the survey finds out which questions lead to the solution. -/
theorem solvable_iff (h : c.cycles = []) (ha : a ∈ c.ids) :
    c.solvable a = true ↔ c.graph.LeadsTo c.solves a :=
  Graph.lookup_survey_iff (cycles_eq_nil_iff.mp h) (List.Subset.refl _) ha

end BranchingStory.Case
