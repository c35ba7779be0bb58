import BranchingStory.Compile.Layout
import BranchingStory.Story.Chapter
import BranchingStory.Text.Blank

/-!
# Compiling a chapter

A draft of a chapter compiles to a chapter or to the list of its problems.  The
problems of the outline come first, then those of each node in order.  A chapter
without an opening, an investigation, an ending or a node on some track has no
layout, so only its outline is looked at.  Two nodes of one name are looked for
last, in a chapter without any other problem.
-/

namespace BranchingStory

/-! ## Nodes -/

/-- The part allows the kind.  The investigation and the end of the chapter have
parts of their own and no other place. -/
def Part.allows (part : Part) (kind : NodeKind) : Bool :=
  match part with
  | .investigation => kind == .investigation
  | .ending => kind == .chapterEnd
  | .prologue | .track => kind != .investigation && kind != .chapterEnd

namespace Placement

/-- The kind of the node, if it is written and known. -/
def kind? (p : Placement) : Option NodeKind := p.draft.kind.bind NodeKind.ofName?

/-- A problem of the node. -/
def problem (chapter : Nat) (p : Placement) (field reason : String) : Diagnostic :=
  .malformed (.chapter chapter (some p.id)) field reason

/-- The problems of the kind as it is written. -/
def kindProblems (chapter : Nat) (p : Placement) : List Diagnostic :=
  match p.draft.kind with
  | none => [p.problem chapter "kind" "missing"]
  | some name =>
      match NodeKind.ofName? name with
      | none => [p.problem chapter "kind" ("unknown kind '" ++ name ++ "'")]
      | some kind =>
          if p.part.allows kind then []
          else [p.problem chapter "kind" ("'" ++ kind.name ++ "' is not allowed in this position")]

/-- A speaker belongs to a dialogue. -/
def speakerProblems (chapter : Nat) (p : Placement) : List Diagnostic :=
  match p.kind? with
  | some kind =>
      if p.draft.speaker.isSome && kind != .dialogue then
        [p.problem chapter "speaker" "only dialogue nodes have a speaker"]
      else []
  | none => []

/-- The problems of the texts of the options. -/
def optionProblems (e : Edition) (chapter : Nat) (p : Placement) : List Diagnostic :=
  p.draft.options.zipIdx.flatMap fun (o, i) =>
    e.textProblems (.chapter chapter (some p.id)) ("options[" ++ i.repr ++ "].text") o.text

/-- The problems of the link.  A choice links through its options, of which it
needs one, and no other node has any. -/
def linkProblems (e : Edition) (chapter : Nat) (p : Placement) : List Diagnostic :=
  match p.kind? with
  | none => []
  | some .choice =>
      (if p.draft.next.isSome then
        [p.problem chapter "next" "choice nodes link through their options"]
      else [])
      ++ (match p.draft.options, p.defaultLink with
          | [], .choice _ => []
          | [], _ => [p.problem chapter "options" "choice node has no options"]
          | _, _ => p.optionProblems e chapter)
  | some _ =>
      if p.draft.options.isEmpty then []
      else [p.problem chapter "options" "only choice nodes carry options"]

/-- Every problem of the node. -/
def problems (e : Edition) (chapter : Nat) (p : Placement) : List Diagnostic :=
  p.kindProblems chapter ++ p.speakerProblems chapter
    ++ e.textProblems (.chapter chapter (some p.id)) "text" p.draft.text
    ++ p.linkProblems e chapter

/-- Where the node leads: through its options, or as its author says, or to its
default. -/
def link (p : Placement) : Link :=
  match p.draft.options with
  | [] => (p.draft.next.map LinkDraft.toLink).getD p.defaultLink
  | options => .choice (options.map ChoiceDraft.toChoice)

/-- The node, if its kind is known. -/
def node? (p : Placement) : Option Node :=
  p.kind?.map fun kind =>
    { id := p.id
      kind := kind
      speaker := p.draft.speaker
      text := p.draft.text
      next := p.link
      pov := p.pov
      tags := .ofList p.draft.tags }

end Placement

/-! ## Chapters -/

namespace ChapterDraft

/-- A problem of the chapter as a whole. -/
def problem (c : ChapterDraft) (field reason : String) : Diagnostic :=
  .malformed (.chapter c.number none) field reason

/-- The problems of the track at a position. -/
def trackProblems (c : ChapterDraft) (t : TrackDraft) (i : Nat) : List Diagnostic :=
  let field := "tracks[" ++ i.repr ++ "]."
  (if t.pov ∈ (c.tracks.take i).map TrackDraft.pov then
    [c.problem (field ++ "pov") ("perspective '" ++ t.pov ++ "' already has a track")]
  else [])
  ++ (if Text.isBlank t.pov || t.pov == Perspective.shared.name then
    [c.problem (field ++ "pov") "a track needs a perspective name other than 'all'"]
  else [])
  ++ (if t.nodes.isEmpty then
    [c.problem (field ++ "nodes") ("track '" ++ t.pov ++ "' has no nodes")]
  else [])

/-- The problems of the outline: title, opening, tracks, investigation, ending. -/
def outlineProblems (e : Edition) (c : ChapterDraft) : List Diagnostic :=
  e.textProblems (.chapter c.number none) "title" c.title
    ++ (if c.prologue.isEmpty then
        [c.problem "prologue" "at least one opening node is required"]
      else [])
    ++ (c.tracks.zipIdx.flatMap fun (t, i) => c.trackProblems t i)
    ++ (if c.investigation.isNone then [c.problem "investigation" "missing"] else [])
    ++ (if c.ending.isNone then [c.problem "ending" "missing"] else [])

/-- The chapter that a layout describes.  Nodes of unknown kind are left out. -/
def assemble (e : Edition) (c : ChapterDraft) (l : Layout) : Chapter :=
  { number := c.number
    title := c.title
    entry := entryName c.number
    tracks := l.trackNames
    nodes := (l.place e c.number).filterMap Placement.node? }

/-- The compiled chapter, or every problem of the draft. -/
def compile (e : Edition) (c : ChapterDraft) : Except (List Diagnostic) Chapter :=
  match c.layout? with
  | none => .error (c.outlineProblems e)
  | some layout =>
      match c.outlineProblems e
          ++ (layout.place e c.number).flatMap (Placement.problems e c.number) with
      | [] =>
          let chapter := c.assemble e layout
          match chapter.repeatedName? with
          | none => .ok chapter
          | some name => .error [c.problem "id" name.message]
      | problems => .error problems

end ChapterDraft

end BranchingStory
