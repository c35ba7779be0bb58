import BranchingStory.Compile.Edition

/-!
# Compiling a case

A draft of a case compiles to a case or to the list of its problems: those of
the case as a whole, then those of each question in order.  Two questions of one
name are looked for last, in a case without any other problem.
-/

namespace BranchingStory

/-! ## Questions -/

namespace QuestionDraft

/-- The name of the question at a position. -/
def nameAt (q : QuestionDraft) (position : Nat) : String := q.id.getD (questionName position)

/-- The reply, if it is written and known. -/
def answer? (q : QuestionDraft) : Option Reply := q.answer.bind Reply.ofName?

/-- The problems of the question at a position. -/
def problems (e : Edition) (case : Nat) (q : QuestionDraft) (position : Nat) : List Diagnostic :=
  let origin := Origin.case case (some (q.nameAt position))
  e.textProblems origin "text" q.text
    ++ (match q.answer with
        | none => [.malformed origin "answer" "missing"]
        | some name =>
            if (Reply.ofName? name).isSome then []
            else [.malformed origin "answer" ("unknown answer '" ++ name ++ "'")])

/-- The question, if its reply is known. -/
def question? (q : QuestionDraft) (position : Nat) : Option Question :=
  q.answer?.map fun answer =>
    { id := q.nameAt position
      text := q.text
      answer := answer
      unlocks := q.unlocks.map Unlock.ofName }

end QuestionDraft

/-! ## Cases -/

namespace CaseDraft

/-- The difficulty.  It is medium if none is written. -/
def difficulty? (c : CaseDraft) : Option Difficulty :=
  match c.difficulty with
  | none => some .medium
  | some name => Difficulty.ofName? name

/-- The problems of the case as a whole. -/
def outlineProblems (e : Edition) (c : CaseDraft) : List Diagnostic :=
  let origin := Origin.case c.number none
  e.textProblems origin "title" c.title
    ++ e.textProblems origin "scenario" c.scenario
    ++ e.textProblems origin "solution" c.solution
    ++ (c.hints.zipIdx.flatMap fun (hint, i) =>
        e.textProblems origin ("hints[" ++ i.repr ++ "]") hint)
    ++ (match c.difficulty with
        | none => []
        | some name =>
            if (Difficulty.ofName? name).isSome then []
            else [.malformed origin "difficulty" ("unknown difficulty '" ++ name ++ "'")])
    ++ (if c.questions.isEmpty then
        [.malformed origin "questions" "at least one question is required"]
      else [])

/-- Every problem of the draft but names that repeat. -/
def problems (e : Edition) (c : CaseDraft) : List Diagnostic :=
  c.outlineProblems e ++ c.questions.zipIdx.flatMap fun (q, i) => q.problems e c.number i

/-- The case that the draft describes.  Questions of unknown reply are left out. -/
def assemble (c : CaseDraft) : Case :=
  { number := c.number
    caseId := c.caseId.getD (caseName c.number)
    title := c.title
    difficulty := c.difficulty?.getD .medium
    scenario := c.scenario
    questions := c.questions.zipIdx.filterMap fun (q, i) => q.question? i
    solution := c.solution
    hints := c.hints
    estimatedTime := c.estimatedTime }

/-- The compiled case, or every problem of the draft. -/
def compile (e : Edition) (c : CaseDraft) : Except (List Diagnostic) Case :=
  match c.problems e with
  | [] =>
      let case := c.assemble
      match case.repeatedName? with
      | none => .ok case
      | some name => .error [.malformed (.case c.number none) "questions" name.message]
  | problems => .error problems

end CaseDraft

end BranchingStory
