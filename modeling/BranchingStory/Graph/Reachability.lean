import BranchingStory.Graph.Basic
import BranchingStory.Loop

/-!
# Reachability

`Graph.reachable` lists the vertices that a path from a given vertex reaches.  The search
keeps a stack of the vertices to visit.  A vertex counts as visited once it has come off
the stack, so until then the stack may hold it several times.
-/

namespace BranchingStory.Graph

variable {α : Type} [DecidableEq α]

/-- The state of a search. -/
structure Search (α : Type) where
  /-- The vertices to visit, the next one first. -/
  stack : List α
  /-- The visited vertices, the latest first. -/
  visited : List α := []
deriving DecidableEq, Repr

/-- The ends of the edges of a vertex that are not visited. -/
def unvisited (g : Graph α) (visited : List α) (a : α) : List α :=
  (g.ends a).filter (· ∉ visited)

/-- The next step of a search, which ends when no vertex is left to visit.  Of the vertices
that a visit puts on the stack the last comes off first. -/
def searchStep (g : Graph α) (s : Search α) : Option (Search α) :=
  match s.stack with
  | [] => none
  | a :: rest =>
      if a ∈ s.visited then some { s with stack := rest }
      else
        let visited := a :: s.visited
        some { stack := (g.unvisited visited a).reverse ++ rest, visited := visited }

/-- A search that has not begun yet.  There is nothing to visit from a name that is no
vertex. -/
def searchFrom (g : Graph α) (a : α) : Search α := { stack := if a ∈ g.vertices then [a] else [] }

/-- The vertices that a path from `a` reaches, `a` among them.  A name that is no
vertex reaches nothing. -/
def reachable (g : Graph α) (a : α) : List α :=
  ((Loop.run g.searchStep (g.searchFrom a)).map Search.visited).getD []

/-- A cycle and an edge that leaves the vertices. -/
example : Graph.reachable ⟨["A", "B", "C"], fun a =>
    if a = "A" then ["B", "X"] else if a = "B" then ["A"] else []⟩ "A" = ["B", "A"] := by cbv

end BranchingStory.Graph
