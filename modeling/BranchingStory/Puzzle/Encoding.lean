import BranchingStory.Puzzle.Case
import BranchingStory.Story.Encoding

/-!
# Cases in JSON

How the records of a case are written and read.  The playing time is written only
if there is one.  A case that leaves out the playing time or the hints is read as
one that has none.
-/

namespace BranchingStory

open Json (ofList string? list? option? record? required? optional? unitVariant? recordNumber?)

/-- Reads a difficulty. -/
def Difficulty.ofJson? (v : Json) : Option Difficulty := unitVariant? Difficulty.ofName? v

/-- Reads a reply. -/
def Reply.ofJson? (v : Json) : Option Reply := unitVariant? Reply.ofName? v

/-- Reads an unlock. -/
def Unlock.ofJson? (v : Json) : Option Unlock := (string? v).map Unlock.ofName

namespace Question

/-- The question field by field. -/
def toJson (q : Question) : Json :=
  .object [("id", .string q.id), ("text", Translations.toJson q.text),
    ("answer", .string q.answer.name), ("unlocks", ofList (fun u => .string u.name) q.unlocks)]

/-- Reads a question. -/
def ofJson? (v : Json) : Option Question := do
  let fields ← record? ["id", "text", "answer", "unlocks"] v
  return { id := ← required? fields "id" string?
           text := ← required? fields "text" Translations.ofJson?
           answer := ← required? fields "answer" Reply.ofJson?
           unlocks := ← required? fields "unlocks" (list? Unlock.ofJson?) }

end Question

namespace Case

/-- The case field by field. -/
def toJson (c : Case) : Json :=
  .object <|
    [("number", .nat c.number), ("case_id", .string c.caseId),
      ("title", Translations.toJson c.title), ("difficulty", .string c.difficulty.name),
      ("scenario", Translations.toJson c.scenario),
      ("questions", ofList Question.toJson c.questions),
      ("solution", Translations.toJson c.solution), ("hints", ofList Translations.toJson c.hints)]
    ++ (c.estimatedTime.map fun t => ("estimated_time", Json.string t)).toList

/-- Reads a case. -/
def ofJson? (v : Json) : Option Case := do
  let fields ← record? ["number", "case_id", "title", "difficulty", "scenario", "questions",
    "solution", "hints", "estimated_time"] v
  return { number := ← required? fields "number" recordNumber?
           caseId := ← required? fields "case_id" string?
           title := ← required? fields "title" Translations.ofJson?
           difficulty := ← required? fields "difficulty" Difficulty.ofJson?
           scenario := ← required? fields "scenario" Translations.ofJson?
           questions := ← required? fields "questions" (list? Question.ofJson?)
           solution := ← required? fields "solution" Translations.ofJson?
           hints := ← optional? fields "hints" [] (list? Translations.ofJson?)
           estimatedTime := ← optional? fields "estimated_time" none (option? string?) }

end Case

end BranchingStory
