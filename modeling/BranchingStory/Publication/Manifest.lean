import BranchingStory.Numbering
import BranchingStory.Publication.Document
import BranchingStory.Report

/-!
# The manifest

The manifest lists the documents of one publication with their files, and totals
their figures.  Content with an error has no manifest.
-/

namespace BranchingStory

open Json (ofList string? list? record? required? recordNumber? count?)

/-! ## Files -/

/-- The file of a chapter inside a publication. -/
def chapterFile (number : Nat) : String := "main/chapter_" ++ number.repr ++ ".json"

/-- The file of a case inside a publication. -/
def caseFile (number : Nat) : String := "side/case_" ++ number.repr ++ ".json"

/-- The file of the manifest itself. -/
def manifestFile : String := "manifest.json"

/-! ## Entries -/

/-- Totals of a publication. -/
structure ContentCounts where
  mainChapters : Nat
  sideCases : Nat
  totalNodes : Nat
deriving DecidableEq, Repr

/-- A chapter in the manifest. -/
structure ChapterEntry where
  chapter : Nat
  file : String
  nodes : Nat
  languages : List String
deriving DecidableEq, Repr

/-- A case in the manifest. -/
structure CaseEntry where
  caseId : String
  file : String
  difficulty : Difficulty
deriving DecidableEq, Repr

/-- The contents of a publication. -/
structure Manifest where
  version : String
  content : ContentCounts
  chapters : List ChapterEntry
  cases : List CaseEntry
deriving DecidableEq, Repr

/-- Content with errors is not published. -/
structure ManifestError where
  errors : Nat
deriving DecidableEq, Repr

/-- The refusal in words. -/
def ManifestError.message (e : ManifestError) : String :=
  "refusing to aggregate content with " ++ e.errors.repr ++ " error diagnostic(s)"

/-! ## Building a manifest -/

/-- The languages that every node has, in order.  No node has no language. -/
def commonLanguages : List Node → List String
  | [] => []
  | first :: rest => first.text.keys.filter fun language => rest.all (·.text.contains language)

namespace Manifest

/-- The version of the format. -/
def formatVersion : String := "1.0"

/-- The entry of a chapter. -/
def chapterEntry (c : Chapter) : ChapterEntry :=
  { chapter := c.number
    file := chapterFile c.number
    nodes := c.nodes.length
    languages := commonLanguages c.nodes }

/-- The entry of a case. -/
def caseEntry (c : Case) : CaseEntry :=
  { caseId := c.caseId
    file := caseFile c.number
    difficulty := c.difficulty }

/-- The manifest of some content, or the number of errors in its report. -/
def build (chapters : List Chapter) (cases : List Case) (report : Report) :
    Except ManifestError Manifest :=
  if report.hasErrors then .error ⟨report.errors.length⟩
  else .ok
    { version := formatVersion
      content := ⟨chapters.length, cases.length, (chapters.flatMap Chapter.nodes).length⟩
      chapters := (sortByNumber Chapter.number chapters).map chapterEntry
      cases := (sortByNumber Case.number cases).map caseEntry }

end Manifest

/-! ## In JSON -/

namespace ContentCounts

/-- The totals field by field. -/
def toJson (c : ContentCounts) : Json :=
  .object [("main_chapters", .nat c.mainChapters), ("side_cases", .nat c.sideCases),
    ("total_nodes", .nat c.totalNodes)]

/-- Reads the totals. -/
def ofJson? (v : Json) : Option ContentCounts := do
  let fields ← record? ["main_chapters", "side_cases", "total_nodes"] v
  return { mainChapters := ← required? fields "main_chapters" count?
           sideCases := ← required? fields "side_cases" count?
           totalNodes := ← required? fields "total_nodes" count? }

end ContentCounts

namespace ChapterEntry

/-- The entry field by field. -/
def toJson (e : ChapterEntry) : Json :=
  .object [("chapter", .nat e.chapter), ("file", .string e.file), ("nodes", .nat e.nodes),
    ("languages", ofList .string e.languages)]

/-- Reads an entry. -/
def ofJson? (v : Json) : Option ChapterEntry := do
  let fields ← record? ["chapter", "file", "nodes", "languages"] v
  return { chapter := ← required? fields "chapter" recordNumber?
           file := ← required? fields "file" string?
           nodes := ← required? fields "nodes" count?
           languages := ← required? fields "languages" (list? string?) }

end ChapterEntry

namespace CaseEntry

/-- The entry field by field. -/
def toJson (e : CaseEntry) : Json :=
  .object [("case_id", .string e.caseId), ("file", .string e.file),
    ("difficulty", .string e.difficulty.name)]

/-- Reads an entry. -/
def ofJson? (v : Json) : Option CaseEntry := do
  let fields ← record? ["case_id", "file", "difficulty"] v
  return { caseId := ← required? fields "case_id" string?
           file := ← required? fields "file" string?
           difficulty := ← required? fields "difficulty" Difficulty.ofJson? }

end CaseEntry

namespace Manifest

/-- The manifest field by field. -/
def toJson (m : Manifest) : Json :=
  .object [("version", .string m.version), ("content", m.content.toJson),
    ("chapters", ofList ChapterEntry.toJson m.chapters),
    ("cases", ofList CaseEntry.toJson m.cases)]

/-- Reads a manifest. -/
def ofJson? (v : Json) : Option Manifest := do
  let fields ← record? ["version", "content", "chapters", "cases"] v
  return { version := ← required? fields "version" string?
           content := ← required? fields "content" ContentCounts.ofJson?
           chapters := ← required? fields "chapters" (list? ChapterEntry.ofJson?)
           cases := ← required? fields "cases" (list? CaseEntry.ofJson?) }

end Manifest

end BranchingStory
