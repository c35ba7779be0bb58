import BranchingStory.Puzzle.Case
import BranchingStory.Story.Chapter

/-!
# Bundles of text

A bundle holds all text of one surface of the game, such as its menus or its
chapters.  Each text has a key, and its wordings are keyed by language.

The texts of compiled records are the *slots* of a bundle: a chapter has a slot
for its title and for each text and each option of its nodes, a case for its
title, its scenario, its solution, its hints and its questions.
-/

namespace BranchingStory

/-- The text of one surface. -/
structure Bundle where
  surface : String
  entries : Std.ExtTreeMap String Translations compare := ∅
deriving DecidableEq, Repr

namespace Bundle

/-! ## Filling a bundle -/

/-- Adds the wordings of a text to those its key has.  A language that has one
already gets the new one. -/
def add (b : Bundle) (key : String) (text : Translations) : Bundle :=
  { b with entries := b.entries.alter key fun old => some (old.getD ∅ ∪ text) }

/-- Adds the wording of a text in one language. -/
def insert (b : Bundle) (key language wording : String) : Bundle :=
  b.add key ((∅ : Translations).insert language wording)

/-- The bundle of some keyed texts, in order. -/
def ofSlots (surface : String) (slots : List (String × Translations)) : Bundle :=
  slots.foldl (fun b slot => b.add slot.1 slot.2) { surface := surface }

/-- The bundle of the texts of each language by key. -/
def ofLanguages (surface : String) (languages : Std.ExtTreeMap String Translations compare) :
    Bundle :=
  languages.foldl
    (fun b language wordings =>
      wordings.foldl (fun b key wording => b.insert key language wording) b)
    { surface := surface }

/-! ## Asking a bundle -/

/-- The wording of a text in a language. -/
def get? (b : Bundle) (key language : String) : Option String :=
  b.entries[key]?.bind (·[language]?)

/-- The languages that have some wording. -/
def languages (b : Bundle) : Std.ExtTreeSet String compare :=
  .ofList (b.entries.values.flatMap (·.keys))

/-- The keys of the texts that a language has, in order. -/
def keysFor (b : Bundle) (language : String) : List String :=
  (b.entries.filter fun _ text => text.contains language).keys

/-- How many texts the bundle has. -/
def size (b : Bundle) : Nat := b.entries.size

/-- The bundle has no text. -/
def isEmpty (b : Bundle) : Bool := b.entries.isEmpty

/-- An added text stands before what its key had. -/
theorem get?_add (b : Bundle) (key : String) (text : Translations) (k l : String) :
    (b.add key text).get? k l = if key = k then text[l]?.or (b.get? k l) else b.get? k l := by
  simp only [add, get?, Std.ExtTreeMap.getElem?_alter, Std.LawfulEqOrd.compare_eq_iff_eq]
  split
  · subst k
    cases b.entries[key]? <;> simp [Std.ExtTreeMap.getElem?_union]
  · rfl

/-- An added wording changes the answer for its key and language alone. -/
theorem get?_insert (b : Bundle) (key language wording k l : String) :
    (b.insert key language wording).get? k l =
      if key = k ∧ language = l then some wording else b.get? k l := by
  simp only [insert, get?_add, Std.ExtTreeMap.getElem?_insert]
  grind

end Bundle

/-! ## The slots of compiled records -/

/-- The text of the node and the texts of its options. -/
def Node.slots (n : Node) : List (String × Translations) :=
  (n.id ++ ".text", n.text)
    :: n.next.options.zipIdx.map fun (o, i) => (n.id ++ ".option." ++ i.repr, o.text)

/-- The title of the chapter and the texts of its nodes. -/
def Chapter.slots (c : Chapter) : List (String × Translations) :=
  ("chapter." ++ c.number.repr ++ ".title", c.title) :: c.nodes.flatMap Node.slots

/-- The texts of the case, its hints and its questions. -/
def Case.slots (c : Case) : List (String × Translations) :=
  [(c.caseId ++ ".title", c.title), (c.caseId ++ ".scenario", c.scenario),
    (c.caseId ++ ".solution", c.solution)]
  ++ (c.hints.zipIdx.map fun (hint, i) => (c.caseId ++ ".hint." ++ i.repr, hint))
  ++ c.questions.map fun q => (c.caseId ++ "." ++ q.id ++ ".text", q.text)

namespace Bundle

/-- The text of some chapters. -/
def ofChapters (chapters : List Chapter) : Bundle :=
  ofSlots "chapters" (chapters.flatMap Chapter.slots)

/-- The text of some cases. -/
def ofCases (cases : List Case) : Bundle := ofSlots "cases" (cases.flatMap Case.slots)

end Bundle

end BranchingStory
