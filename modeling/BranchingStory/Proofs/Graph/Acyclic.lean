import BranchingStory.Proofs.Graph.Search

/-!
# Graphs without cycles

In a graph without circular vertices an edge leads to a vertex that reaches less.  So the number of
vertices that are reached is a rank that falls along every edge (`Graph.exists_rank`), and going
up in rank, against the edges, comes to an end at a vertex that no edge leads to
(`Graph.exists_source`).
-/

namespace BranchingStory.Graph

variable {α : Type} {g : Graph α}

/-- A graph without circular vertices has a bounded rank that falls along every edge. -/
theorem exists_rank [DecidableEq α] (h : ∀ a ∈ g.vertices, ¬ g.Circular a) :
    ∃ (rank : α → Nat) (bound : Nat), (∀ a, rank a ≤ bound) ∧
      ∀ a ∈ g.vertices, ∀ b, g.Edge a b → rank b < rank a := by
  refine ⟨fun a => (g.vertices.filter (· ∈ g.reachable a)).length, g.vertices.length,
    fun a => List.length_filter_le _ _, fun a ha b he => ?_⟩
  have hsub : ∀ c, c ∈ g.reachable b → c ∈ g.reachable a := fun c hc =>
    mem_reachable_iff.mpr ⟨ha, .head he (mem_reachable_iff.mp hc).2⟩
  have hfilter : g.vertices.filter (· ∈ g.reachable b) =
      (g.vertices.filter (· ∈ g.reachable a)).filter (· ∈ g.reachable b) := by
    rw [List.filter_filter]
    refine List.filter_congr fun c _ => ?_
    simpa using hsub c
  -- What `b` reaches is reached from `a`, but `a` itself is not reached from `b`.
  have hself : a ∈ g.vertices.filter (· ∈ g.reachable a) := by
    simpa [mem_reachable_iff, ha] using Path.refl
  have hback : a ∉ g.reachable b := fun hmem => h a ha ⟨b, he, (mem_reachable_iff.mp hmem).2⟩
  dsimp only
  rw [hfilter]
  exact List.length_filter_lt_length_iff_exists.mpr ⟨a, hself, by simpa using hback⟩

/-- If some bounded rank falls along every edge, then every vertex is reached from a vertex that
no edge leads to. -/
theorem exists_source {rank : α → Nat} {bound : Nat} (hbound : ∀ a, rank a ≤ bound)
    (hrank : ∀ a ∈ g.vertices, ∀ b, g.Edge a b → rank b < rank a) (b : α) (hb : b ∈ g.vertices) :
    ∃ a ∈ g.vertices, (∀ c ∈ g.vertices, ¬ g.Edge c a) ∧ g.Path a b := by
  by_cases hsource : ∀ c ∈ g.vertices, ¬ g.Edge c b
  · exact ⟨b, hb, hsource, .refl⟩
  · obtain ⟨c, hc, hedge⟩ : ∃ c ∈ g.vertices, g.Edge c b := by simpa using hsource
    have hup := hrank c hc b hedge
    have hle := hbound c
    obtain ⟨a, ha, hsource, hpath⟩ := exists_source hbound hrank c hc
    exact ⟨a, ha, hsource, hpath.step hedge⟩
termination_by bound - rank b
decreasing_by omega

end BranchingStory.Graph
