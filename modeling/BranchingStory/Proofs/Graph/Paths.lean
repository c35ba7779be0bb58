import Mathlib.Data.List.Chain
import Mathlib.Logic.Relation
import BranchingStory.Graph.Basic

/-!
# Paths and cycles

A vertex is *circular* if it lies on a cycle: an edge leads away from it, and a path leads back.
A list of vertices that runs once around a cycle is a witness of that.  It ends where it begins and
repeats nothing else (`Graph.IsCycle`), and its vertices all reach each other.
-/

namespace BranchingStory.Graph

variable {α : Type} {g : Graph α} {a b c : α}

/-! ## Paths -/

/-- The paths of a graph are the chains of its edges. -/
theorem path_iff_reflTransGen : g.Path a b ↔ Relation.ReflTransGen g.Edge a b := by
  constructor
  · intro h
    induction h with
    | refl => exact .refl
    | step _ e ih => exact ih.tail e
  · intro h
    induction h with
    | refl => exact .refl
    | tail _ e ih => exact ih.step e

theorem Path.head (he : g.Edge a b) (hp : g.Path b c) : g.Path a c := (Path.refl.step he).trans hp

/-- A path is empty or begins with an edge. -/
theorem path_iff_head : g.Path a c ↔ a = c ∨ ∃ b, g.Edge a b ∧ g.Path b c := by
  simp only [path_iff_reflTransGen]
  rw [Relation.ReflTransGen.cases_head_iff]

/-- A path from a vertex ends at a vertex. -/
theorem Path.mem_vertices (h : g.Path a b) (ha : a ∈ g.vertices) : b ∈ g.vertices := by
  cases h with
  | refl => exact ha
  | step _ he => exact he.2

/-! ## Circular vertices -/

/-- The vertex lies on a cycle. -/
def Circular (g : Graph α) (a : α) : Prop := ∃ b, g.Edge a b ∧ g.Path b a

theorem circular_iff_transGen : g.Circular a ↔ Relation.TransGen g.Edge a a := by
  simp only [Circular, path_iff_reflTransGen, Relation.TransGen.head'_iff]

/-- The next vertex on the cycle is circular, too. -/
theorem circular_of_edge (he : g.Edge a b) (hp : g.Path b a) : g.Circular b := by
  rcases path_iff_head.mp hp with rfl | ⟨c, hbc, hca⟩
  · exact ⟨b, he, hp⟩
  · exact ⟨c, hbc, hca.step he⟩

theorem Circular.mem_vertices (h : g.Circular a) : a ∈ g.vertices := by
  obtain ⟨b, he, hp⟩ := h
  exact hp.mem_vertices he.2

/-! ## Cycles -/

/-- The list runs once around a cycle. -/
structure IsCycle (g : Graph α) (cycle : List α) : Prop where
  two_le : 2 ≤ cycle.length
  closed : cycle.head? = cycle.getLast?
  nodup : cycle.dropLast.Nodup
  chain : cycle.IsChain g.Edge

/-- An edge from the last vertex of a chain back to the first closes a cycle. -/
theorem isCycle_concat {l : List α} (hchain : (b :: l).IsChain g.Edge) (hnodup : (b :: l).Nodup)
    (hlast : (b :: l).getLast? = some a) (he : g.Edge a b) : g.IsCycle (b :: l ++ [b]) where
  two_le := by simp
  closed := by rw [List.getLast?_concat, List.cons_append, List.head?_cons]
  nodup := by rwa [List.dropLast_concat]
  chain := by
    refine hchain.append (.singleton b) fun c hc d hd => ?_
    obtain rfl : a = c := Option.some.inj (hlast.symm.trans hc)
    obtain rfl : b = d := by simpa using hd
    exact he

/-- The vertices of a cycle all reach each other. -/
theorem IsCycle.path {cycle : List α} (h : g.IsCycle cycle) (ha : a ∈ cycle) (hb : b ∈ cycle) :
    g.Path a b := by
  have htrans : IsTrans α g.Path := ⟨fun _ _ _ => Path.trans⟩
  have hpairwise : cycle.Pairwise g.Path :=
    List.isChain_iff_pairwise.mp (h.chain.imp fun _ _ he => Path.refl.step he)
  obtain ⟨c, hhead⟩ : ∃ c, cycle.head? = some c := by
    refine Option.ne_none_iff_exists'.mp fun hnil => ?_
    simp [List.head?_eq_none_iff.mp hnil] at ha
  -- From `a` the path goes on to the end of the list, and from its beginning to `b`.
  have hac : g.Path a c := by
    obtain ⟨front, hconcat⟩ := List.getLast?_eq_some_iff.mp (h.closed.symm.trans hhead)
    rw [hconcat] at ha hpairwise
    rcases List.mem_append.mp ha with ha | ha
    · exact (List.pairwise_append.mp hpairwise).2.2 a ha c (.head _)
    · obtain rfl := List.mem_singleton.mp ha
      exact .refl
  have hcb : g.Path c b := by
    obtain ⟨rest, hcons⟩ := List.head?_eq_some_iff.mp hhead
    rw [hcons] at hb hpairwise
    rcases List.mem_cons.mp hb with rfl | hb
    · exact .refl
    · exact (List.pairwise_cons.mp hpairwise).1 b hb
  exact hac.trans hcb

/-- A cycle has a circular vertex. -/
theorem IsCycle.exists_circular {cycle : List α} (h : g.IsCycle cycle) : ∃ a, g.Circular a := by
  match cycle, h with
  | [], h => exact absurd h.two_le (by simp)
  | [_], h => exact absurd h.two_le (by simp)
  | a :: b :: rest, h =>
      exact ⟨a, b, h.chain.rel, h.path (.tail _ (.head _)) (.head _)⟩

/-! ## Knots -/

/-- One of the cycles runs through vertices that all reach `a` and are reached from it. -/
def Knotted (g : Graph α) (cycles : List (List α)) (a : α) : Prop :=
  ∃ cycle ∈ cycles, ∀ b ∈ cycle, g.Path a b ∧ g.Path b a

theorem Knotted.mono {cycles cycles' : List (List α)} (h : g.Knotted cycles a)
    (hcycles : cycles ⊆ cycles') : g.Knotted cycles' a := by
  obtain ⟨cycle, hmem, hpath⟩ := h
  exact ⟨cycle, hcycles hmem, hpath⟩

/-- A vertex of a cycle is knotted by it. -/
theorem IsCycle.knotted {cycle : List α} {cycles : List (List α)} (h : g.IsCycle cycle)
    (hcycle : cycle ∈ cycles) (ha : a ∈ cycle) : g.Knotted cycles a :=
  ⟨cycle, hcycle, fun _ hb => ⟨h.path ha hb, h.path hb ha⟩⟩

/-- A list of vertices, the latest first, in which every edge leads from a vertex to an earlier one,
unless the vertex is knotted. -/
inductive Settled (g : Graph α) (cycles : List (List α)) : List α → Prop where
  | nil : Settled g cycles []
  | cons {l : List α} {a : α} : Settled g cycles l →
      (∀ b, g.Edge a b → b ∈ l ∨ g.Knotted cycles a) → Settled g cycles (a :: l)

theorem Settled.mono {cycles cycles' : List (List α)} {l : List α} (h : g.Settled cycles l)
    (hcycles : cycles ⊆ cycles') : g.Settled cycles' l := by
  induction h with
  | nil => exact .nil
  | cons _ hl ih => exact ih.cons fun b he => (hl b he).imp_right (·.mono hcycles)

/-- A circular vertex of a settled list is knotted. -/
theorem Settled.knotted {cycles : List (List α)} {l : List α} (h : g.Settled cycles l)
    (ha : a ∈ l) (hcircular : g.Circular a) : g.Knotted cycles a := by
  -- The cycle cannot go on to earlier vertices forever, and a knot of one of its vertices is one
  -- of all.
  induction h generalizing a with
  | nil => cases ha
  | cons _ hl ih =>
      rcases List.mem_cons.mp ha with rfl | ha
      · obtain ⟨b, he, hp⟩ := hcircular
        rcases hl b he with hb | hknotted
        · obtain ⟨cycle, hmem, hpath⟩ := ih hb (circular_of_edge he hp)
          exact ⟨cycle, hmem, fun c hc => ⟨.head he (hpath c hc).1, (hpath c hc).2.trans hp⟩⟩
        · exact hknotted
      · exact ih ha hcircular

end BranchingStory.Graph
