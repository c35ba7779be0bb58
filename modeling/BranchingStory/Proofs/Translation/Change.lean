import Mathlib.Data.List.Basic
import BranchingStory.Build

/-!
# Changing the texts of records

A function on texts changes every text of a record and nothing else.  `mapTexts` applies it to
drafts and to compiled records alike: to titles, nodes, options and labels, and to the
scenario, the solution, the hints and the questions of a case.

The checks of a story look at names, kinds and links.  They read no text, so no change of the
texts shows in what they report (`storyProblems_mapTexts`).
-/

namespace BranchingStory

variable {f : Translations → Translations}

/-! ## Compiled records -/

/-- The option with its text changed. -/
def Choice.mapTexts (f : Translations → Translations) (o : Choice) : Choice :=
  { o with text := f o.text }

/-- The link with the texts of its options changed. -/
def Link.mapTexts (f : Translations → Translations) : Link → Link
  | node id => .node id
  | chapter number => .chapter number
  | choice options => .choice (options.map (Choice.mapTexts f))
  | ending => .ending

/-- The node with its text and the texts of its options changed. -/
def Node.mapTexts (f : Translations → Translations) (n : Node) : Node :=
  { n with text := f n.text, next := n.next.mapTexts f }

/-- The chapter with its title and the texts of its nodes changed. -/
def Chapter.mapTexts (f : Translations → Translations) (c : Chapter) : Chapter :=
  { c with title := f c.title, nodes := c.nodes.map (Node.mapTexts f) }

/-- The question with its text changed. -/
def Question.mapTexts (f : Translations → Translations) (q : Question) : Question :=
  { q with text := f q.text }

/-- The case with all of its texts changed. -/
def Case.mapTexts (f : Translations → Translations) (c : Case) : Case :=
  { c with
    title := f c.title
    scenario := f c.scenario
    questions := c.questions.map (Question.mapTexts f)
    solution := f c.solution
    hints := c.hints.map f }

/-! ## Drafts -/

/-- The option with its text changed. -/
def ChoiceDraft.mapTexts (f : Translations → Translations) (o : ChoiceDraft) : ChoiceDraft :=
  { o with text := f o.text }

/-- The node with its text and the texts of its options changed. -/
def NodeDraft.mapTexts (f : Translations → Translations) (n : NodeDraft) : NodeDraft :=
  { n with text := f n.text, options := n.options.map (ChoiceDraft.mapTexts f) }

/-- The track with its label and the texts of its nodes changed. -/
def TrackDraft.mapTexts (f : Translations → Translations) (t : TrackDraft) : TrackDraft :=
  { t with label := f t.label, nodes := t.nodes.map (NodeDraft.mapTexts f) }

/-- The chapter with all of its texts changed. -/
def ChapterDraft.mapTexts (f : Translations → Translations) (c : ChapterDraft) : ChapterDraft :=
  { c with
    title := f c.title
    prologue := c.prologue.map (NodeDraft.mapTexts f)
    tracks := c.tracks.map (TrackDraft.mapTexts f)
    investigation := c.investigation.map (NodeDraft.mapTexts f)
    ending := c.ending.map (NodeDraft.mapTexts f) }

/-- The question with its text changed. -/
def QuestionDraft.mapTexts (f : Translations → Translations) (q : QuestionDraft) : QuestionDraft :=
  { q with text := f q.text }

/-- The case with all of its texts changed. -/
def CaseDraft.mapTexts (f : Translations → Translations) (c : CaseDraft) : CaseDraft :=
  { c with
    title := f c.title
    scenario := f c.scenario
    questions := c.questions.map (QuestionDraft.mapTexts f)
    solution := f c.solution
    hints := c.hints.map f }

/-- The manuscript with the texts of all of its records changed. -/
def Manuscript.mapTexts (f : Translations → Translations) (m : Manuscript) : Manuscript :=
  { m with
    chapters := m.chapters.map (ChapterDraft.mapTexts f)
    cases := m.cases.map (CaseDraft.mapTexts f) }

/-! ## Links -/

namespace Link

variable {link : Link}

theorem localTargets_mapTexts : (link.mapTexts f).localTargets = link.localTargets := by
  cases link with
  | choice options => simp [mapTexts, localTargets, Choice.mapTexts, Function.comp_def]
  | _ => rfl

/-- A link is changed into one without options only if it is that link. -/
theorem mapTexts_eq_iff {target : Link} (htarget : ∀ options, target ≠ .choice options) :
    link.mapTexts f = target ↔ link = target := by
  cases link with
  | choice options => simp [mapTexts, (htarget _).symm]
  | _ => rfl

end Link

/-! ## Two changes in a row -/

section

variable {g : Translations → Translations}

theorem Node.mapTexts_mapTexts (n : Node) :
    (n.mapTexts f).mapTexts g = n.mapTexts (g ∘ f) := by
  have hnext : (n.next.mapTexts f).mapTexts g = n.next.mapTexts (g ∘ f) := by
    cases n.next with
    | choice options => simp [Link.mapTexts, Choice.mapTexts, Function.comp_def]
    | _ => rfl
  rw [mapTexts, mapTexts, hnext]
  rfl

theorem Chapter.mapTexts_mapTexts (c : Chapter) :
    (c.mapTexts f).mapTexts g = c.mapTexts (g ∘ f) := by
  simp [mapTexts, Function.comp_def, Node.mapTexts_mapTexts]

theorem Case.mapTexts_mapTexts (c : Case) :
    (c.mapTexts f).mapTexts g = c.mapTexts (g ∘ f) := by
  simp [mapTexts, Question.mapTexts, Function.comp_def]

end

/-! ## Checks of a chapter -/

namespace Chapter

variable {c : Chapter} {numbers : List Nat} {last : Nat}

theorem ids_mapTexts : (c.mapTexts f).ids = c.ids := by
  simp [ids, mapTexts, Node.mapTexts, Function.comp_def]

theorem contains_mapTexts (id : String) : (c.mapTexts f).contains id = c.contains id := by
  simp [contains, mapTexts, Node.mapTexts, Function.comp_def]

theorem ofKind_mapTexts (kind : NodeKind) :
    (c.mapTexts f).ofKind kind = (c.ofKind kind).map (Node.mapTexts f) := by
  simp only [ofKind, mapTexts, List.filter_map]
  rfl

theorem linked?_mapTexts (id : String) :
    (c.mapTexts f).linked? id = (c.linked? id).map (Node.mapTexts f) := by
  simp only [linked?, List.findRev?_eq_find?_reverse, mapTexts, ← List.map_reverse, List.find?_map]
  rfl

theorem graph_mapTexts : (c.mapTexts f).graph = c.graph := by
  have hnext : ∀ id, (((c.mapTexts f).linked? id).map Node.localTargets).getD [] =
      ((c.linked? id).map Node.localTargets).getD [] := by
    intro id
    rw [linked?_mapTexts]
    cases c.linked? id with
    | none => rfl
    | some n => exact Link.localTargets_mapTexts
  rw [graph, graph, funext hnext, ids_mapTexts]

theorem expectedEnd_ne_choice (last number : Nat) (options : List Choice) :
    expectedEnd last number ≠ .choice options := by
  rw [expectedEnd]
  split <;> simp

theorem brokenTargets_mapTexts (n : Node) :
    (c.mapTexts f).brokenTargets numbers last (n.mapTexts f) = c.brokenTargets numbers last n := by
  have hcontains : (c.mapTexts f).contains = c.contains := funext contains_mapTexts
  rw [brokenTargets, brokenTargets, hcontains, Node.mapTexts]
  cases hnext : n.next with
  | choice options => simp [Link.mapTexts, Choice.mapTexts, Function.comp_def]
  | _ => rfl

theorem linkProblems_mapTexts (n : Node) :
    (c.mapTexts f).linkProblems numbers last (n.mapTexts f) = c.linkProblems numbers last n := by
  have hend : (n.mapTexts f).next ≠ expectedEnd last c.number ↔
      n.next ≠ expectedEnd last c.number :=
    not_congr (Link.mapTexts_eq_iff (expectedEnd_ne_choice last c.number))
  have hnumber : (c.mapTexts f).number = c.number := rfl
  have hkind : (n.mapTexts f).kind = n.kind := rfl
  have hid : (n.mapTexts f).id = n.id := rfl
  rw [linkProblems, linkProblems, brokenTargets_mapTexts]
  simp only [hnumber, hkind, hid, hend]

theorem pathProblems_mapTexts (source target : String) :
    (c.mapTexts f).pathProblems source target = c.pathProblems source target := by
  rw [pathProblems, pathProblems, graph_mapTexts]
  rfl

theorem countProblems_mapTexts (kind : NodeKind) :
    (c.mapTexts f).countProblems kind = c.countProblems kind := by
  rw [countProblems, countProblems, ofKind_mapTexts, List.length_map]
  rfl

theorem convergenceProblems_mapTexts :
    (c.mapTexts f).convergenceProblems = c.convergenceProblems := by
  have hpaths : (c.mapTexts f).pathProblems = c.pathProblems :=
    funext fun source => funext fun target => pathProblems_mapTexts source target
  rw [convergenceProblems, convergenceProblems]
  simp only [ofKind_mapTexts, countProblems_mapTexts, hpaths]
  rcases c.ofKind .investigation with _ | ⟨investigation, _ | _⟩ <;>
    rcases c.ofKind .chapterEnd with _ | ⟨ending, _ | _⟩ <;> rfl

theorem reachProblems_mapTexts : (c.mapTexts f).reachProblems = c.reachProblems := by
  rw [reachProblems, reachProblems, contains_mapTexts, graph_mapTexts]
  simp only [mapTexts, List.filter_map, List.map_map]
  rfl

/-- The checks of a chapter read no text. -/
theorem problems_mapTexts :
    (c.mapTexts f).problems numbers last = c.problems numbers last := by
  have hentry : (c.mapTexts f).entryProblems = c.entryProblems := by
    rw [entryProblems, entryProblems, contains_mapTexts]
    rfl
  have hlinks : (c.mapTexts f).nodes.flatMap ((c.mapTexts f).linkProblems numbers last) =
      c.nodes.flatMap (c.linkProblems numbers last) := by
    rw [mapTexts, List.flatMap_map]
    exact List.flatMap_congr fun n _ => linkProblems_mapTexts n
  rw [problems, problems, hentry, hlinks, convergenceProblems_mapTexts, reachProblems_mapTexts]

end Chapter

/-! ## Checks of a case -/

namespace Case

variable {c : Case}

theorem ids_mapTexts : (c.mapTexts f).ids = c.ids := by
  simp [ids, mapTexts, Question.mapTexts, Function.comp_def]

theorem unlocked?_mapTexts (id : String) :
    (c.mapTexts f).unlocked? id = (c.unlocked? id).map (Question.mapTexts f) := by
  simp only [unlocked?, List.findRev?_eq_find?_reverse, mapTexts, ← List.map_reverse,
    List.find?_map]
  rfl

theorem graph_mapTexts : (c.mapTexts f).graph = c.graph := by
  have hnext : ∀ id,
      (((c.mapTexts f).unlocked? id).map fun q => q.targets.filter (· ∈ (c.mapTexts f).ids)).getD []
        = ((c.unlocked? id).map fun q => q.targets.filter (· ∈ c.ids)).getD [] := by
    intro id
    rw [unlocked?_mapTexts, ids_mapTexts]
    cases c.unlocked? id <;> rfl
  rw [graph, graph, funext hnext, ids_mapTexts]

theorem unsolvable_mapTexts : (c.mapTexts f).unsolvable = c.unsolvable := by
  have hsolves : (c.mapTexts f).solves = c.solves := by
    funext id
    rw [solves, solves, unlocked?_mapTexts]
    cases c.unlocked? id <;> rfl
  rw [unsolvable, unsolvable, prospects, prospects, graph_mapTexts, hsolves, ids_mapTexts]

theorem cycles_mapTexts : (c.mapTexts f).cycles = c.cycles := by
  have hroots : (c.mapTexts f).roots.map Question.id = c.roots.map Question.id := by
    simp only [roots, mapTexts, List.filter_map, List.map_map, List.flatMap_map]
    rfl
  rw [cycles, cycles, walkOrder, walkOrder, graph_mapTexts, hroots, ids_mapTexts]

/-- The checks of a case read no text. -/
theorem problems_mapTexts : (c.mapTexts f).problems = c.problems := by
  have hunknown : (c.mapTexts f).unknownUnlocks = c.unknownUnlocks := by
    rw [unknownUnlocks, unknownUnlocks, ids_mapTexts, mapTexts, List.flatMap_map]
    rfl
  rw [problems, problems, hunknown, cycles_mapTexts, unsolvable_mapTexts]
  rfl

end Case

/-! ## Checks of a story -/

/-- The checks of a story read no text. -/
theorem storyProblems_mapTexts (chapters : List Chapter) (cases : List Case) :
    storyProblems (chapters.map (Chapter.mapTexts f)) (cases.map (Case.mapTexts f)) =
      storyProblems chapters cases := by
  have hnumbers : (chapters.map (Chapter.mapTexts f)).map Chapter.number =
      chapters.map Chapter.number := List.map_map
  have hchapter : ∀ c, (Chapter.mapTexts f c).number = c.number := fun _ => rfl
  have hcase : ∀ c, (Case.mapTexts f c).number = c.number := fun _ => rfl
  rw [storyProblems, storyProblems, lastNumber, lastNumber, hnumbers, sortByNumber_map hchapter,
    sortByNumber_map hcase, List.flatMap_map, List.flatMap_map]
  simp only [Chapter.problems_mapTexts, Case.problems_mapTexts]

end BranchingStory
