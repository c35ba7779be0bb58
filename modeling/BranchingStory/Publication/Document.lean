import BranchingStory.Puzzle.Encoding

/-!
# Documents

A document is a compiled record as it is shipped to the player's machine.  It
repeats the record and adds figures about it.  The nodes of a chapter are keyed
by name in a document, so of two nodes of one name the last is shipped.
-/

namespace BranchingStory

open Json (ofList ofMap string? list? map? option? record? required? optional? recordNumber? count?)

/-- The version that a document names as its maker. -/
def compilerVersion : String := "0.1.0"

/-! ## Chapters -/

/-- Figures about a chapter. -/
structure ChapterMetadata where
  nodeCount : Nat
  trackCount : Nat
  compilerVersion : String
deriving DecidableEq, Repr

/-- A chapter as it is shipped. -/
structure ChapterDocument where
  chapter : Nat
  title : Translations
  entry : String
  tracks : List Track
  nodes : Std.ExtTreeMap String Node compare
  metadata : ChapterMetadata
deriving DecidableEq, Repr

namespace ChapterMetadata

/-- The figures field by field. -/
def toJson (m : ChapterMetadata) : Json :=
  .object [("node_count", .nat m.nodeCount), ("track_count", .nat m.trackCount),
    ("compiler_version", .string m.compilerVersion)]

/-- Reads the figures. -/
def ofJson? (v : Json) : Option ChapterMetadata := do
  let fields ← record? ["node_count", "track_count", "compiler_version"] v
  return { nodeCount := ← required? fields "node_count" count?
           trackCount := ← required? fields "track_count" count?
           compilerVersion := ← required? fields "compiler_version" string? }

end ChapterMetadata

namespace ChapterDocument

/-- The document of a chapter. -/
def ofChapter (c : Chapter) : ChapterDocument :=
  { chapter := c.number
    title := c.title
    entry := c.entry
    tracks := c.tracks
    nodes := .ofList (c.nodes.map fun n => (n.id, n))
    metadata := ⟨c.nodes.length, c.tracks.length, compilerVersion⟩ }

/-- The document field by field. -/
def toJson (d : ChapterDocument) : Json :=
  .object [("chapter", .nat d.chapter), ("title", Translations.toJson d.title),
    ("entry", .string d.entry), ("tracks", ofList Track.toJson d.tracks),
    ("nodes", ofMap Node.toJson d.nodes), ("metadata", d.metadata.toJson)]

/-- Reads a document. -/
def ofJson? (v : Json) : Option ChapterDocument := do
  let fields ← record? ["chapter", "title", "entry", "tracks", "nodes", "metadata"] v
  return { chapter := ← required? fields "chapter" recordNumber?
           title := ← required? fields "title" Translations.ofJson?
           entry := ← required? fields "entry" string?
           tracks := ← required? fields "tracks" (list? Track.ofJson?)
           nodes := ← required? fields "nodes" (map? Node.ofJson?)
           metadata := ← required? fields "metadata" ChapterMetadata.ofJson? }

end ChapterDocument

/-! ## Cases -/

/-- Figures about a case. -/
structure CaseMetadata where
  questionCount : Nat
  hintCount : Nat
  compilerVersion : String
deriving DecidableEq, Repr

/-- A case as it is shipped.  The number stays behind: the name of the case tells
it from others. -/
structure CaseDocument where
  caseId : String
  title : Translations
  difficulty : Difficulty
  scenario : Translations
  questions : List Question
  solution : Translations
  hints : List Translations
  estimatedTime : Option String
  metadata : CaseMetadata
deriving DecidableEq, Repr

namespace CaseMetadata

/-- The figures field by field. -/
def toJson (m : CaseMetadata) : Json :=
  .object [("question_count", .nat m.questionCount), ("hint_count", .nat m.hintCount),
    ("compiler_version", .string m.compilerVersion)]

/-- Reads the figures. -/
def ofJson? (v : Json) : Option CaseMetadata := do
  let fields ← record? ["question_count", "hint_count", "compiler_version"] v
  return { questionCount := ← required? fields "question_count" count?
           hintCount := ← required? fields "hint_count" count?
           compilerVersion := ← required? fields "compiler_version" string? }

end CaseMetadata

namespace CaseDocument

/-- The document of a case. -/
def ofCase (c : Case) : CaseDocument :=
  { caseId := c.caseId
    title := c.title
    difficulty := c.difficulty
    scenario := c.scenario
    questions := c.questions
    solution := c.solution
    hints := c.hints
    estimatedTime := c.estimatedTime
    metadata := ⟨c.questions.length, c.hints.length, compilerVersion⟩ }

/-- The document field by field. -/
def toJson (d : CaseDocument) : Json :=
  .object <|
    [("case_id", .string d.caseId), ("title", Translations.toJson d.title),
      ("difficulty", .string d.difficulty.name), ("scenario", Translations.toJson d.scenario),
      ("questions", ofList Question.toJson d.questions),
      ("solution", Translations.toJson d.solution),
      ("hints", ofList Translations.toJson d.hints)]
    ++ (d.estimatedTime.map fun t => ("estimated_time", Json.string t)).toList
    ++ [("metadata", d.metadata.toJson)]

/-- Reads a document.  The hints have to be there, if only as an empty list. -/
def ofJson? (v : Json) : Option CaseDocument := do
  let fields ← record? ["case_id", "title", "difficulty", "scenario", "questions", "solution",
    "hints", "estimated_time", "metadata"] v
  return { caseId := ← required? fields "case_id" string?
           title := ← required? fields "title" Translations.ofJson?
           difficulty := ← required? fields "difficulty" Difficulty.ofJson?
           scenario := ← required? fields "scenario" Translations.ofJson?
           questions := ← required? fields "questions" (list? Question.ofJson?)
           solution := ← required? fields "solution" Translations.ofJson?
           hints := ← required? fields "hints" (list? Translations.ofJson?)
           estimatedTime := ← optional? fields "estimated_time" none (option? string?)
           metadata := ← required? fields "metadata" CaseMetadata.ofJson? }

end CaseDocument

end BranchingStory
