import BranchingStory.Diagnostic
import BranchingStory.Graph.Reachability
import BranchingStory.Story.Chapter

/-!
# Checking a chapter

The checks of a chapter look at all of its nodes at once.  They find

* an entry that does not exist,
* links that lead nowhere, and an end of the chapter that leads to the wrong
  place,
* a number of investigations or ends other than one,
* a track that misses the investigation, and an investigation that misses the
  end,
* nodes that the entry does not reach.

Every problem is reported, in this order, with the links node by node.  Where
several nodes share a name, a link to that name leads to the last of them.

Every number has a next one here.  A machine that counts in words of 32 bits has
none after 4294967295, and how it would check a chapter of that number is left open.
-/

namespace BranchingStory.Chapter

/-- The node that a link to a name leads to. -/
def linked? (c : Chapter) (id : String) : Option Node := c.nodes.findRev? (·.id == id)

/-- The links inside the chapter. -/
def graph (c : Chapter) : Graph String :=
  { vertices := c.ids
    next := fun id => ((c.linked? id).map Node.localTargets).getD [] }

/-- Where the end of a chapter must lead if `last` is the last chapter. -/
def expectedEnd (last number : Nat) : Link :=
  if number = last then .ending else .chapter (number + 1)

/-- The targets of a node that lead nowhere.  A link to another chapter has to go
to the next one, which has to exist, and only the last chapter may end the
story. -/
def brokenTargets (c : Chapter) (numbers : List Nat) (last : Nat) (n : Node) : List String :=
  match n.next with
  | .node id => if c.contains id then [] else [id]
  | .choice options => (options.map Choice.target).filter (!c.contains ·)
  | .chapter number =>
      if number = c.number + 1 ∧ number ∈ numbers then [] else [entryName number]
  | .ending => if c.number = last then [] else [endingName]

/-- The problems of the links of a node. -/
def linkProblems (c : Chapter) (numbers : List Nat) (last : Nat) (n : Node) : List Diagnostic :=
  match c.brokenTargets numbers last n with
  | [] =>
      if n.kind = .chapterEnd ∧ n.next ≠ expectedEnd last c.number then
        [.endMismatch c.number n.id (", ".intercalate (expectedEnd last c.number).targets)]
      else []
  | broken => broken.map (.brokenLink c.number n.id ·)

/-- The entry is a node. -/
def entryProblems (c : Chapter) : List Diagnostic :=
  if c.contains c.entry then [] else [.missingEntry c.number c.entry]

/-- A kind that the chapter needs once and has another number of times. -/
def countProblems (c : Chapter) (kind : NodeKind) : List Diagnostic :=
  if (c.ofKind kind).length = 1 then []
  else [.missingConvergence c.number kind (c.ofKind kind).length]

/-- Some path leads from one name to another. -/
def pathProblems (c : Chapter) (source target : String) : List Diagnostic :=
  if target ∈ c.graph.reachable source then []
  else [.noConvergencePath c.number source target]

/-- Every track meets at the investigation, and the investigation leads to the end.
Paths are looked for only if there is one of each. -/
def convergenceProblems (c : Chapter) : List Diagnostic :=
  match c.ofKind .investigation, c.ofKind .chapterEnd with
  | [investigation], [ending] =>
      ((c.tracks.filterMap (·.nodes.head?)).flatMap (c.pathProblems · investigation.id))
        ++ c.pathProblems investigation.id ending.id
  | _, _ => c.countProblems .investigation ++ c.countProblems .chapterEnd

/-- The nodes that no path from the entry reaches.  A chapter without its entry has
a worse problem, and none of these. -/
def reachProblems (c : Chapter) : List Diagnostic :=
  if c.contains c.entry then
    let reached := c.graph.reachable c.entry
    (c.nodes.filter (·.id ∉ reached)).map (.unreachableNode c.number ·.id)
  else []

/-- Every problem of a chapter among chapters of the given numbers. -/
def problems (numbers : List Nat) (last : Nat) (c : Chapter) : List Diagnostic :=
  c.entryProblems ++ c.nodes.flatMap (c.linkProblems numbers last) ++ c.convergenceProblems
    ++ c.reachProblems

end BranchingStory.Chapter
