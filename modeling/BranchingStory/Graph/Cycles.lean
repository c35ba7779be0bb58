import BranchingStory.Graph.Basic
import BranchingStory.Loop

/-!
# Cycles

`Graph.cyclesFrom` walks a graph depth-first and reports the cycle that each back
edge closes.  The walk keeps the path from its start to the current vertex, and for
each vertex of the path how many of its edges it has followed.  A vertex is marked as
entered when it joins the path and as finished when it leaves it, and a marked vertex
is not entered again.

An edge to a vertex that is entered and not finished is a back edge.  Its cycle is the
part of the path from that vertex on, with the vertex repeated at the end.
-/

namespace BranchingStory.Graph

variable {α : Type} [DecidableEq α]

/-- How far the walk has come with a vertex. -/
inductive Mark where
  /-- Some of its edges are not followed yet. -/
  | entered
  /-- All its edges are followed. -/
  | finished
deriving DecidableEq, Repr

/-- The state of a depth-first walk. -/
structure Walk (α : Type) where
  /-- The vertices that the walk has yet to start from. -/
  starts : List α
  /-- The marks, the latest first.  The latest mark of a vertex counts. -/
  marks : List (α × Mark) := []
  /-- The path from the current vertex back to the start.  Each vertex comes with the
  number of its edges that are followed. -/
  path : List (α × Nat) := []
  /-- The cycles, in the order they were closed. -/
  cycles : List (List α) := []
deriving DecidableEq, Repr

namespace Walk

/-- The mark of a vertex, if it has one. -/
def mark? (w : Walk α) (a : α) : Option Mark := w.marks.lookup a

omit [DecidableEq α] in
/-- The vertices of the path, from the start to the current one. -/
def route (w : Walk α) : List α := (w.path.map Prod.fst).reverse

/-- The walk goes on to a vertex. -/
def enter (w : Walk α) (a : α) : Walk α :=
  { w with marks := (a, .entered) :: w.marks, path := (a, 0) :: w.path }

/-- The cycle that an edge from the end of the route back to `target` closes.  A target
that is not on the route would count as its start. -/
def closeCycle (route : List α) (target : α) : List α :=
  route.drop ((route.idxOf? target).getD 0) ++ [target]

/-- What the walk does about an edge from the current vertex to `target`. -/
def follow (w : Walk α) (target : α) : Walk α :=
  match w.mark? target with
  | some .entered => { w with cycles := w.cycles ++ [closeCycle w.route target] }
  | some .finished => w
  | none => w.enter target

end Walk

/-- The next step of a walk, which ends when it has no path and no start left. -/
def walkStep (g : Graph α) (w : Walk α) : Option (Walk α) :=
  match w.path with
  | [] =>
      match w.starts with
      | [] => none
      | a :: rest =>
          let w := { w with starts := rest }
          some (if (w.mark? a).isSome then w else w.enter a)
  | (a, position) :: rest =>
      match (g.ends a)[position]? with
      | none => some { w with marks := (a, .finished) :: w.marks, path := rest }
      | some target => some ({ w with path := (a, position + 1) :: rest }.follow target)

/-- The end of a walk from each start that no earlier part of the walk has entered. -/
def walkFrom (g : Graph α) (starts : List α) : Option (Walk α) :=
  Loop.run g.walkStep { starts := starts }

/-- The cycles closed by the back edges of a walk from the starts. -/
def cyclesFrom (g : Graph α) (starts : List α) : List (List α) :=
  ((g.walkFrom starts).map Walk.cycles).getD []

/-- A loop at `B` and a cycle through all three vertices. -/
example : Graph.cyclesFrom ⟨["A", "B", "C"], fun a =>
    if a = "A" then ["B"] else if a = "B" then ["B", "C"] else ["A"]⟩ ["A", "B", "C"]
    = [["B", "B"], ["A", "B", "C", "A"]] := by cbv

end BranchingStory.Graph
