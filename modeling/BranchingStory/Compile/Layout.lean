import BranchingStory.Compile.Edition

/-!
# The layout of a chapter

The order of the nodes in a draft is the order of reading.  Every node gets a
name, its author's or one from its place, and a default link:

* a node of the prologue or of a track leads to the next one,
* the last node of the prologue leads to the first track,
* the last node of a track leads to the next track, and the last track to the
  investigation,
* the investigation leads to the ending, and the ending out of the chapter.

A prologue that ends with a choice without options changes this.  The choice
gets one option for each track, and every track then leads to the investigation.
Such a chapter *branches*.
-/

namespace BranchingStory

/-- The part of a chapter that a node stands in. -/
inductive Part where
  | prologue
  | track
  | investigation
  | ending
deriving DecidableEq, Repr

/-- Some nodes in reading order, each with its name. -/
abbrev Run := List (String × NodeDraft)

namespace Run

/-- Names the nodes of a run.  `slot` gives the place of each position. -/
def ofDrafts (chapter : Nat) (slot : Nat → Slot) (nodes : List NodeDraft) : Run :=
  nodes.mapIdx fun i node => (node.id.getD ((slot i).nodeName chapter), node)

/-- The link into a run: to its first node, or past the run if it is empty. -/
def linkInto (past : Link) : Run → Link
  | [] => past
  | (id, _) :: _ => .node id

end Run

/-- A draft of a node with all that its place decides. -/
structure Placement where
  draft : NodeDraft
  id : String
  part : Part
  pov : Perspective
  /-- Where it leads if its author does not say. -/
  defaultLink : Link
deriving DecidableEq, Repr

/-- A complete chapter with every node named. -/
structure Layout where
  prologue : Run
  tracks : List (TrackDraft × Run)
  investigation : String × NodeDraft
  ending : String × NodeDraft

/-- The layout of a draft that has an opening, a node on every track, an
investigation and an ending. -/
def ChapterDraft.layout? (c : ChapterDraft) : Option Layout :=
  match c.investigation, c.ending with
  | some investigation, some ending =>
      if c.prologue.isEmpty || c.tracks.any (·.nodes.isEmpty) then none
      else some
        { prologue := .ofDrafts c.number .prologue c.prologue
          tracks := c.tracks.map fun t => (t, .ofDrafts c.number (.track t.pov) t.nodes)
          investigation :=
            (investigation.id.getD (Slot.investigation.nodeName c.number), investigation)
          ending := (ending.id.getD (Slot.ending.nodeName c.number), ending) }
  | _, _ => none

namespace Layout

/-- Places a run.  Each node leads to the next one and the last to `after`. -/
def placeRun (part : Part) (pov : Perspective) (after : Link) : Run → List Placement
  | [] => []
  | (id, draft) :: rest =>
      ⟨draft, id, part, pov, Run.linkInto after rest⟩ :: placeRun part pov after rest

/-- The run of the first track. -/
def firstRun (tracks : List (TrackDraft × Run)) : Run := (tracks.head?.map Prod.snd).getD []

/-- Places the tracks.  Each leads to the next one, or straight to `meet` if the
chapter branches. -/
def placeTracks (branches : Bool) (meet : Link) : List (TrackDraft × Run) → List Placement
  | [] => []
  | (track, run) :: rest =>
      placeRun .track (.track track.pov)
          (if branches then meet else Run.linkInto meet (firstRun rest)) run
        ++ placeTracks branches meet rest

/-- The prologue ends with a choice that has no options, and there are tracks to
choose from. -/
def branches (l : Layout) : Bool :=
  !l.tracks.isEmpty &&
    l.prologue.getLast?.any fun last => last.2.kind == some "choice" && last.2.options.isEmpty

/-- What the option of a track reads: its label, or the name of the perspective
if the label lacks the reference language. -/
def trackLabel (e : Edition) (t : TrackDraft) : Translations :=
  if t.label.contains e.reference then t.label
  else (∅ : Translations).insert e.reference t.pov

/-- The options of a branching chapter, one for each track. -/
def trackOptions (e : Edition) (tracks : List (TrackDraft × Run)) : List Choice :=
  tracks.filterMap fun (track, run) => run.head?.map fun first => ⟨trackLabel e track, first.1⟩

/-- The link from the prologue to what follows it. -/
def linkFromPrologue (e : Edition) (l : Layout) : Link :=
  if l.branches then .choice (trackOptions e l.tracks)
  else Run.linkInto (.node l.investigation.1) (firstRun l.tracks)

/-- Every node of the chapter in order. -/
def place (e : Edition) (chapter : Nat) (l : Layout) : List Placement :=
  placeRun .prologue .shared (l.linkFromPrologue e) l.prologue
    ++ placeTracks l.branches (.node l.investigation.1) l.tracks
    ++ [⟨l.investigation.2, l.investigation.1, .investigation, .shared, .node l.ending.1⟩,
        ⟨l.ending.2, l.ending.1, .ending, .shared, e.linkAfter chapter⟩]

/-- The tracks by name. -/
def trackNames (l : Layout) : List Track :=
  l.tracks.map fun (track, run) => ⟨track.pov, run.map Prod.fst⟩

end Layout

/-- Two opening nodes.  The second has a name of its own. -/
example : (Run.ofDrafts 1 .prologue [{}, { id := some "HALL" }, {}]).map Prod.fst
    = ["CH1_START", "HALL", "CH1_003"] := by decide

end BranchingStory
