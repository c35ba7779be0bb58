import BranchingStory.Draft
import BranchingStory.Ron.Record

/-!
# Reading drafts

How the drafts of chapters and cases are read from the object notation.  Almost
every field may be left out.  A chapter and a case need their numbers, a track its
perspective and an option its target.

Each record lists its fields with their shapes once.  The list tells the notation where
options stand, and it tells which fields are known.
-/

namespace BranchingStory

open Ron (Shape string? recordNumber? list? option? texts? record? required? optional?)

/-! ## Chapters -/

namespace LinkDraft

/-- Reads a link. -/
def ofRon? : Ron → Option LinkDraft
  | .tuple (some "Node") [id] => (string? id).map node
  | .tuple (some "Chapter") [number] => (recordNumber? number).map chapter
  | .word "Ending" => some ending
  | _ => none

end LinkDraft

namespace ChoiceDraft

/-- The fields of an option of a choice. -/
def fields : List (String × Shape) := [("text", .plain), ("target", .plain)]

/-- Reads an option of a choice. -/
def ofRon? (v : Ron) : Option ChoiceDraft := do
  let found ← record? "RawOption" fields v
  return { text := ← optional? found "text" ∅ texts?
           target := ← required? found "target" string? }

end ChoiceDraft

namespace NodeDraft

/-- The fields of a node. -/
def fields : List (String × Shape) :=
  [("id", .option .plain), ("kind", .option .plain), ("speaker", .option .plain),
    ("text", .plain), ("next", .option .plain), ("options", .list (.record ChoiceDraft.fields)),
    ("tags", .plain)]

/-- Reads a node. -/
def ofRon? (v : Ron) : Option NodeDraft := do
  let found ← record? "RawNode" fields v
  return { id := ← optional? found "id" none (option? string?)
           kind := ← optional? found "kind" none (option? string?)
           speaker := ← optional? found "speaker" none (option? string?)
           text := ← optional? found "text" ∅ texts?
           next := ← optional? found "next" none (option? LinkDraft.ofRon?)
           options := ← optional? found "options" [] (list? ChoiceDraft.ofRon?)
           tags := ← optional? found "tags" [] (list? string?) }

end NodeDraft

namespace TrackDraft

/-- The fields of a track. -/
def fields : List (String × Shape) :=
  [("pov", .plain), ("label", .plain), ("nodes", .list (.record NodeDraft.fields))]

/-- Reads a track. -/
def ofRon? (v : Ron) : Option TrackDraft := do
  let found ← record? "RawTrack" fields v
  return { pov := ← required? found "pov" string?
           label := ← optional? found "label" ∅ texts?
           nodes := ← optional? found "nodes" [] (list? NodeDraft.ofRon?) }

end TrackDraft

namespace ChapterDraft

/-- The fields of a chapter. -/
def fields : List (String × Shape) :=
  let node : Shape := .record NodeDraft.fields
  [("number", .plain), ("title", .plain), ("prologue", .list node),
    ("tracks", .list (.record TrackDraft.fields)), ("investigation", .option node),
    ("ending", .option node)]

/-- Reads a chapter. -/
def ofRon? (v : Ron) : Option ChapterDraft := do
  let found ← record? "Chapter" fields v
  return { number := ← required? found "number" recordNumber?
           title := ← optional? found "title" ∅ texts?
           prologue := ← optional? found "prologue" [] (list? NodeDraft.ofRon?)
           tracks := ← optional? found "tracks" [] (list? TrackDraft.ofRon?)
           investigation := ← optional? found "investigation" none (option? NodeDraft.ofRon?)
           ending := ← optional? found "ending" none (option? NodeDraft.ofRon?) }

/-- The chapter that a whole text writes. -/
def parse? (text : String) : Option ChapterDraft := (Ron.parse? (.record fields) text).bind ofRon?

/-- The chapter that a whole text writes, or why it writes none. -/
def parse (text : String) : Except String ChapterDraft :=
  (parse? text).elim (.error "expected a chapter") .ok

end ChapterDraft

/-! ## Cases -/

namespace QuestionDraft

/-- The fields of a question. -/
def fields : List (String × Shape) :=
  [("id", .option .plain), ("text", .plain), ("answer", .option .plain), ("unlocks", .plain)]

/-- Reads a question. -/
def ofRon? (v : Ron) : Option QuestionDraft := do
  let found ← record? "RawQuestion" fields v
  return { id := ← optional? found "id" none (option? string?)
           text := ← optional? found "text" ∅ texts?
           answer := ← optional? found "answer" none (option? string?)
           unlocks := ← optional? found "unlocks" [] (list? string?) }

end QuestionDraft

namespace CaseDraft

/-- The fields of a case. -/
def fields : List (String × Shape) :=
  [("number", .plain), ("case_id", .option .plain), ("title", .plain),
    ("difficulty", .option .plain), ("scenario", .plain),
    ("questions", .list (.record QuestionDraft.fields)), ("solution", .plain), ("hints", .plain),
    ("estimated_time", .option .plain)]

/-- Reads a case. -/
def ofRon? (v : Ron) : Option CaseDraft := do
  let found ← record? "Case" fields v
  return { number := ← required? found "number" recordNumber?
           caseId := ← optional? found "case_id" none (option? string?)
           title := ← optional? found "title" ∅ texts?
           difficulty := ← optional? found "difficulty" none (option? string?)
           scenario := ← optional? found "scenario" ∅ texts?
           questions := ← optional? found "questions" [] (list? QuestionDraft.ofRon?)
           solution := ← optional? found "solution" ∅ texts?
           hints := ← optional? found "hints" [] (list? texts?)
           estimatedTime := ← optional? found "estimated_time" none (option? string?) }

/-- The case that a whole text writes. -/
def parse? (text : String) : Option CaseDraft := (Ron.parse? (.record fields) text).bind ofRon?

/-- The case that a whole text writes, or why it writes none. -/
def parse (text : String) : Except String CaseDraft :=
  (parse? text).elim (.error "expected a case") .ok

end CaseDraft

example : (ChapterDraft.parse? "Chapter(number: 0x2, extra: [(), 1.5],)").map ChapterDraft.number
    = some 2 := by decide +kernel
example : (ChapterDraft.parse? "(number: 1, number: 1)").isNone = true := by decide +kernel
example : ((CaseDraft.parse? "#![enable(implicit_some)](number: 1, case_id: Some\"a\")").bind
    CaseDraft.caseId) = some "a" := by decide +kernel

end BranchingStory
