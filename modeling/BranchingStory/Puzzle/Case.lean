import BranchingStory.Story.Chapter

/-!
# Puzzle cases

A case is a riddle solved by yes-or-no questions.  Asking a question may unlock
others, and one that unlocks `SOLUTION` solves the case.  Cases stand beside the
chapters and share no names with them.
-/

namespace BranchingStory

/-- How hard a case is meant to be. -/
inductive Difficulty where
  | easy
  | medium
  | hard
deriving DecidableEq, Repr, Inhabited

namespace Difficulty

/-- The name authors write. -/
def name : Difficulty → String
  | easy => "easy"
  | medium => "medium"
  | hard => "hard"

/-- Every difficulty. -/
def all : List Difficulty := [easy, medium, hard]

/-- The difficulty of that name. -/
def ofName? (s : String) : Option Difficulty := all.find? (·.name == s)

theorem ofName?_name (d : Difficulty) : ofName? d.name = some d := by
  cases d <;> decide

theorem name_of_ofName? {s : String} {d : Difficulty} (h : ofName? s = some d) : d.name = s := by
  simpa using List.find?_some h

theorem ofName?_eq_some_iff {s : String} {d : Difficulty} : ofName? s = some d ↔ d.name = s :=
  ⟨name_of_ofName?, fun h => h ▸ ofName?_name d⟩

end Difficulty

/-- What the game master replies to a question. -/
inductive Reply where
  | yes
  | no
  | irrelevant
deriving DecidableEq, Repr, Inhabited

namespace Reply

/-- The name authors write. -/
def name : Reply → String
  | yes => "yes"
  | no => "no"
  | irrelevant => "irrelevant"

/-- Every reply. -/
def all : List Reply := [yes, no, irrelevant]

/-- The reply of that name. -/
def ofName? (s : String) : Option Reply := all.find? (·.name == s)

theorem ofName?_name (r : Reply) : ofName? r.name = some r := by
  cases r <;> decide

theorem name_of_ofName? {s : String} {r : Reply} (h : ofName? s = some r) : r.name = s := by
  simpa using List.find?_some h

theorem ofName?_eq_some_iff {s : String} {r : Reply} : ofName? s = some r ↔ r.name = s :=
  ⟨name_of_ofName?, fun h => h ▸ ofName?_name r⟩

end Reply

/-- How an unlock of the solution is written. -/
def solutionName : String := "SOLUTION"

/-- What asking a question makes available. -/
inductive Unlock where
  | question (id : String)
  | solution
deriving DecidableEq, Repr, Inhabited

namespace Unlock

/-- The name authors write. -/
def name : Unlock → String
  | question id => id
  | solution => solutionName

/-- Every name is a question's but the one of the solution. -/
def ofName (s : String) : Unlock := if s = solutionName then solution else question s

/-- The question, if it is one. -/
def question? : Unlock → Option String
  | question id => some id
  | solution => none

theorem name_ofName (s : String) : (ofName s).name = s := by
  unfold ofName
  split <;> simp_all [name]

theorem ofName_ne_question_solutionName (s : String) : ofName s ≠ question solutionName := by
  unfold ofName
  split <;> simp_all

end Unlock

/-- A question of a case. -/
structure Question where
  id : String
  text : Translations
  answer : Reply
  unlocks : List Unlock
deriving DecidableEq, Repr

namespace Question

/-- The questions that asking this one makes available, known or not. -/
def targets (q : Question) : List String := q.unlocks.filterMap Unlock.question?

/-- Asking the question solves the case. -/
def solves (q : Question) : Bool := q.unlocks.contains .solution

end Question

/-- A compiled case. -/
structure Case where
  number : Nat
  caseId : String
  title : Translations
  difficulty : Difficulty
  scenario : Translations
  questions : List Question
  solution : Translations
  hints : List Translations
  estimatedTime : Option String
deriving DecidableEq, Repr

namespace Case

/-- The names of the questions. -/
def ids (c : Case) : List String := c.questions.map Question.id

/-- The first name that two questions share. -/
def repeatedName? (c : Case) : Option RepeatedName := (firstRepeat? c.ids).map .question

/-- The questions open from the start: those that no question unlocks. -/
def roots (c : Case) : List Question :=
  c.questions.filter fun q => q.id ∉ c.questions.flatMap Question.targets

end Case

example : Unlock.ofName "SOLUTION" = .solution := by decide
example : Unlock.ofName "Q002" = .question "Q002" := by decide
example : Difficulty.ofName? "nightmare" = none := by decide

end BranchingStory
