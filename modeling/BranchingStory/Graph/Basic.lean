/-!
# Directed graphs

A graph is given by its vertices and the successors of each.  A successor need
not be a vertex: an edge that leaves the vertices leads nowhere, and no search
follows it.
-/

namespace BranchingStory

/-- A finite directed graph. -/
structure Graph (α : Type) where
  /-- The vertices, with or without repetitions. -/
  vertices : List α
  /-- The ends of the edges that leave a vertex, in order. -/
  next : α → List α

namespace Graph

variable {α : Type}

/-- An edge of the graph leads from `a` to the vertex `b`. -/
def Edge (g : Graph α) (a b : α) : Prop := b ∈ g.next a ∧ b ∈ g.vertices

/-- The vertices that the edges of `a` lead to, in order. -/
def ends [DecidableEq α] (g : Graph α) (a : α) : List α := (g.next a).filter (· ∈ g.vertices)

@[simp] theorem mem_ends [DecidableEq α] {g : Graph α} {a b : α} :
    b ∈ g.ends a ↔ g.Edge a b := by
  simp [ends, Edge]

/-- A path of any length, the empty one included, leads from `a` to `b`. -/
inductive Path (g : Graph α) (a : α) : α → Prop where
  | refl : Path g a a
  | step {b c : α} : Path g a b → g.Edge b c → Path g a c

theorem Path.trans {g : Graph α} {a b c : α} (hab : g.Path a b) (hbc : g.Path b c) :
    g.Path a c := by
  induction hbc with
  | refl => exact hab
  | step _ e ih => exact ih.step e

end Graph

end BranchingStory
