import BranchingStory.Proofs.Alignment
import BranchingStory.Proofs.Puzzle.Compiled

/-!
# Well-formed cases

The rules that an author of a case has to follow, said of a draft alone.  The compiler accepts
exactly the drafts that follow them, and carries over every question as it was written
(`CaseDraft.compile_faithful`).

`CaseDraft.Breaks` lists the ways in which a draft can break a rule, each with the question and the
field it is about and the words of the complaint.  The compiler looks at all of a draft before it
refuses it.  So its problems are exactly the broken rules (`CaseDraft.mem_problems_iff`), but for
names that repeat, which it looks for only in a draft that breaks no other rule.
-/

namespace BranchingStory

/-! ## Questions -/

namespace QuestionDraft

/-- The rules for a question. -/
structure WellFormed (q : QuestionDraft) (reference : String) : Prop where
  text : q.text.contains reference = true
  answer : ∃ reply : Reply, q.answer = some reply.name

/-- A rule that a question breaks, by the field it is about and the complaint. -/
inductive Breaks (q : QuestionDraft) (reference : String) : String → String → Prop where
  | text : q.text.contains reference = false →
      Breaks q reference "text" ("missing '" ++ reference ++ "' text")
  | noAnswer : q.answer = none → Breaks q reference "answer" "missing"
  | unknownAnswer {name : String} : q.answer = some name → Reply.ofName? name = none →
      Breaks q reference "answer" ("unknown answer '" ++ name ++ "'")

/-- The question of the case says what the draft at the position says. -/
structure Becomes (q : QuestionDraft) (position : Nat) (question : Question) : Prop where
  id : question.id = q.nameAt position
  text : question.text = q.text
  answer : q.answer = some question.answer.name
  unlocks : question.unlocks.map Unlock.name = q.unlocks
  /-- The name of the solution is never taken for that of a question. -/
  solution : .question solutionName ∉ question.unlocks

variable {e : Edition} {q : QuestionDraft} {question : Question} {case position : Nat}
  {reference : String} {d : Diagnostic}

theorem becomes_of_question? (h : q.question? position = some question) :
    q.Becomes position question := by
  obtain ⟨reply, hreply, rfl⟩ := Option.map_eq_some_iff.mp h
  obtain ⟨name, hname, hknown⟩ := Option.bind_eq_some_iff.mp hreply
  refine ⟨rfl, rfl, ?_, ?_, ?_⟩
  · rw [hname, Reply.name_of_ofName? hknown]
  · rw [List.map_map]
    exact List.map_id'' Unlock.name_ofName q.unlocks
  · intro hmem
    obtain ⟨name, _, hsolution⟩ := List.mem_map.mp hmem
    exact Unlock.ofName_ne_question_solutionName name hsolution

/-- The problems of a question are the rules that it breaks. -/
theorem mem_problems_iff : d ∈ q.problems e case position ↔
    ∃ field reason, q.Breaks e.reference field reason ∧
      d = .malformed (.case case (some (q.nameAt position))) field reason := by
  rw [problems, List.mem_append, Edition.mem_textProblems_iff]
  constructor
  · rintro (⟨htext, rfl⟩ | h)
    · exact ⟨_, _, .text htext, rfl⟩
    · split at h
      · rename_i hanswer
        exact ⟨_, _, .noAnswer hanswer, List.mem_singleton.mp h⟩
      · rename_i name hanswer
        split at h
        · simp at h
        · rename_i hunknown
          exact ⟨_, _, .unknownAnswer hanswer (by simpa using hunknown), List.mem_singleton.mp h⟩
  · rintro ⟨field, reason, hbreaks, rfl⟩
    cases hbreaks with
    | text htext => exact .inl ⟨htext, rfl⟩
    | noAnswer hanswer => simp [hanswer]
    | unknownAnswer hanswer hunknown => simp [hanswer, hunknown]

/-- A question follows the rules exactly if it breaks none. -/
theorem wellFormed_iff :
    q.WellFormed reference ↔ ∀ field reason, ¬ q.Breaks reference field reason := by
  constructor
  · rintro ⟨htext, reply, hreply⟩ field reason hbreaks
    cases hbreaks with
    | text hmissing => simp [htext] at hmissing
    | noAnswer hnone => simp [hreply] at hnone
    | unknownAnswer hname hunknown =>
        obtain rfl := Option.some.inj (hreply.symm.trans hname)
        simp [Reply.ofName?_name] at hunknown
  · intro h
    refine ⟨eq_true_of_ne_false fun htext => h _ _ (.text htext), ?_⟩
    cases hanswer : q.answer with
    | none => exact absurd (.noAnswer hanswer) (h _ _)
    | some name =>
        cases hknown : Reply.ofName? name with
        | none => exact absurd (.unknownAnswer hanswer hknown) (h _ _)
        | some reply => exact ⟨reply, by rw [Reply.name_of_ofName? hknown]⟩

end QuestionDraft

/-! ## Cases -/

namespace CaseDraft

/-- The names of the questions, in order. -/
def names (c : CaseDraft) : List String := c.questions.zipIdx.map fun (q, i) => q.nameAt i

/-- The rules for a case. -/
structure WellFormed (c : CaseDraft) (reference : String) : Prop where
  title : c.title.contains reference = true
  scenario : c.scenario.contains reference = true
  solution : c.solution.contains reference = true
  hints : ∀ hint ∈ c.hints, hint.contains reference = true
  difficulty : ∀ name, c.difficulty = some name → ∃ known : Difficulty, known.name = name
  some_question : c.questions ≠ []
  questions : ∀ q ∈ c.questions, q.WellFormed reference
  names : c.names.Nodup

/-- A rule that a case breaks, by the question it is about, if it is about one, the field and the
complaint. -/
inductive Breaks (c : CaseDraft) (reference : String) : Option String → String → String → Prop where
  | title : c.title.contains reference = false →
      Breaks c reference none "title" ("missing '" ++ reference ++ "' text")
  | scenario : c.scenario.contains reference = false →
      Breaks c reference none "scenario" ("missing '" ++ reference ++ "' text")
  | solution : c.solution.contains reference = false →
      Breaks c reference none "solution" ("missing '" ++ reference ++ "' text")
  | hint {i : Nat} {hint : Translations} : c.hints[i]? = some hint →
      hint.contains reference = false →
      Breaks c reference none ("hints[" ++ i.repr ++ "]") ("missing '" ++ reference ++ "' text")
  | difficulty {name : String} : c.difficulty = some name → Difficulty.ofName? name = none →
      Breaks c reference none "difficulty" ("unknown difficulty '" ++ name ++ "'")
  | noQuestion : c.questions = [] →
      Breaks c reference none "questions" "at least one question is required"
  | question {i : Nat} {q : QuestionDraft} {field reason : String} : c.questions[i]? = some q →
      q.Breaks reference field reason → Breaks c reference (some (q.nameAt i)) field reason

variable {e : Edition} {c : CaseDraft} {case : Case} {problems : List Diagnostic} {d : Diagnostic}
  {reference : String}

/-- A case follows the rules exactly if it breaks none and no name repeats. -/
theorem wellFormed_iff : c.WellFormed reference ↔
    (∀ question field reason, ¬ c.Breaks reference question field reason) ∧ c.names.Nodup := by
  constructor
  · intro h
    refine ⟨?_, h.names⟩
    intro question field reason hbreaks
    cases hbreaks with
    | title hmissing => simp [h.title] at hmissing
    | scenario hmissing => simp [h.scenario] at hmissing
    | solution hmissing => simp [h.solution] at hmissing
    | hint hhint hmissing => simp [h.hints _ (List.mem_of_getElem? hhint)] at hmissing
    | difficulty hname hunknown =>
        obtain ⟨known, rfl⟩ := h.difficulty _ hname
        simp [Difficulty.ofName?_name] at hunknown
    | noQuestion hnil => exact h.some_question hnil
    | question hq hbreaks =>
        exact QuestionDraft.wellFormed_iff.mp (h.questions _ (List.mem_of_getElem? hq)) _ _ hbreaks
  · rintro ⟨h, hnames⟩
    refine ⟨eq_true_of_ne_false fun hmissing => h _ _ _ (.title hmissing),
      eq_true_of_ne_false fun hmissing => h _ _ _ (.scenario hmissing),
      eq_true_of_ne_false fun hmissing => h _ _ _ (.solution hmissing),
      ?hints, ?difficulty, fun hnil => h _ _ _ (.noQuestion hnil), ?questions, hnames⟩
    case hints =>
      intro hint hhint
      obtain ⟨i, hi⟩ := List.mem_iff_getElem?.mp hhint
      exact eq_true_of_ne_false fun hmissing => h _ _ _ (.hint hi hmissing)
    case difficulty =>
      intro name hname
      cases hknown : Difficulty.ofName? name with
      | none => exact absurd (.difficulty hname hknown) (h _ _ _)
      | some known => exact ⟨known, Difficulty.name_of_ofName? hknown⟩
    case questions =>
      intro q hq
      obtain ⟨i, hi⟩ := List.mem_iff_getElem?.mp hq
      exact QuestionDraft.wellFormed_iff.mpr fun _ _ hbreaks => h _ _ _ (.question hi hbreaks)

/-- The problems of a case as a whole are the rules that it breaks. -/
theorem mem_outlineProblems_iff : d ∈ c.outlineProblems e ↔
    ∃ field reason, c.Breaks e.reference none field reason ∧
      d = .malformed (.case c.number none) field reason := by
  simp only [outlineProblems, List.mem_append, Edition.mem_textProblems_iff, List.mem_flatMap,
    Prod.exists, List.mem_zipIdx_iff_getElem?, or_assoc]
  constructor
  · rintro (⟨h, rfl⟩ | ⟨h, rfl⟩ | ⟨h, rfl⟩ | ⟨hint, i, hhint, h, rfl⟩ | h | h)
    · exact ⟨_, _, .title h, rfl⟩
    · exact ⟨_, _, .scenario h, rfl⟩
    · exact ⟨_, _, .solution h, rfl⟩
    · exact ⟨_, _, .hint hhint h, rfl⟩
    · split at h
      · simp at h
      · rename_i name hname
        split at h
        · simp at h
        · rename_i hunknown
          exact ⟨_, _, .difficulty hname (by simpa using hunknown), List.mem_singleton.mp h⟩
    · split at h
      · rename_i hnil
        exact ⟨_, _, .noQuestion (List.isEmpty_iff.mp hnil), List.mem_singleton.mp h⟩
      · simp at h
  · rintro ⟨field, reason, hbreaks, rfl⟩
    cases hbreaks with
    | title h => exact .inl ⟨h, rfl⟩
    | scenario h => exact .inr (.inl ⟨h, rfl⟩)
    | solution h => exact .inr (.inr (.inl ⟨h, rfl⟩))
    | hint hhint h => exact .inr (.inr (.inr (.inl ⟨_, _, hhint, h, rfl⟩)))
    | difficulty hname hunknown => simp [hname, hunknown]
    | noQuestion hnil => simp [hnil]

/-- The problems of a case are the rules that it breaks. -/
theorem mem_problems_iff : d ∈ c.problems e ↔
    ∃ question field reason, c.Breaks e.reference question field reason ∧
      d = .malformed (.case c.number question) field reason := by
  simp only [problems, List.mem_append, mem_outlineProblems_iff, List.mem_flatMap, Prod.exists,
    List.mem_zipIdx_iff_getElem?, QuestionDraft.mem_problems_iff]
  constructor
  · rintro (⟨field, reason, hbreaks, rfl⟩ | ⟨q, i, hq, field, reason, hbreaks, rfl⟩)
    · exact ⟨none, field, reason, hbreaks, rfl⟩
    · exact ⟨_, field, reason, .question hq hbreaks, rfl⟩
  · rintro ⟨none | name, field, reason, hbreaks, rfl⟩
    · exact .inl ⟨field, reason, hbreaks, rfl⟩
    · cases hbreaks with
      | question hq hbreaks => exact .inr ⟨_, _, hq, field, reason, hbreaks, rfl⟩

/-- Nothing is wrong with a case exactly if it breaks no rule. -/
theorem problems_eq_nil_iff : c.problems e = [] ↔
    ∀ question field reason, ¬ c.Breaks e.reference question field reason := by
  rw [List.eq_nil_iff_forall_not_mem]
  constructor
  · intro h question field reason hbreaks
    exact h _ (mem_problems_iff.mpr ⟨question, field, reason, hbreaks, rfl⟩)
  · intro h d hd
    obtain ⟨question, field, reason, hbreaks, _⟩ := mem_problems_iff.mp hd
    exact h question field reason hbreaks

/-- Every question of a case without problems becomes a question of the compiled case. -/
theorem becomes_assemble (h : c.problems e = []) :
    List.Forall₂ (fun place question => place.1.Becomes place.2 question) c.questions.zipIdx
      c.assemble.questions := by
  refine forall₂_filterMap (R := Eq) (List.forall₂_eq_eq_eq ▸ rfl) ?_
  rintro ⟨q, i⟩ _ hplace rfl
  have hclean := List.flatMap_eq_nil_iff.mp (List.append_eq_nil_iff.mp h).2 _ hplace
  obtain ⟨question, hquestion⟩ := exists_question_of_problems_eq_nil hclean
  exact ⟨question, hquestion, QuestionDraft.becomes_of_question? hquestion⟩

theorem ids_assemble (h : c.problems e = []) : c.assemble.ids = c.names :=
  (map_eq_map_of_forall₂ (becomes_assemble h) fun _ _ hbecomes => hbecomes.id.symm).symm

/-- The compiler accepts exactly the drafts that follow the rules. -/
theorem exists_compile_iff : (∃ case, c.compile e = .ok case) ↔ c.WellFormed e.reference := by
  rw [wellFormed_iff, ← problems_eq_nil_iff]
  constructor
  · rintro ⟨case, hcase⟩
    obtain ⟨hproblems, hids, rfl⟩ := compile_eq_ok_iff.mp hcase
    exact ⟨hproblems, ids_assemble hproblems ▸ hids⟩
  · rintro ⟨hproblems, hnames⟩
    exact ⟨_, compile_eq_ok_iff.mpr ⟨hproblems, (ids_assemble hproblems).symm ▸ hnames, rfl⟩⟩

/-- A refused draft has a problem in its list, and every rule that it breaks. -/
theorem mem_of_compile_eq_error (h : c.compile e = .error problems) :
    problems ≠ [] ∧ ∀ d ∈ c.problems e, d ∈ problems := by
  rw [compile] at h
  cases hproblems : c.problems e with
  | cons first rest =>
      rw [hproblems] at h
      obtain rfl := Except.error.inj h
      exact ⟨List.cons_ne_nil _ _, fun _ hd => hd⟩
  | nil =>
      rw [hproblems] at h
      -- Only a name that repeats is left to refuse the draft for.
      cases hrepeated : c.assemble.repeatedName? with
      | none => simp [hrepeated] at h
      | some name =>
          simp only [hrepeated] at h
          obtain rfl := Except.error.inj h
          exact ⟨List.cons_ne_nil _ _, by simp⟩

/-- The compiler accepts exactly the cases that follow the rules, and is faithful.  A compiled case
has the questions of its draft in order, each with its text, its answer, its unlocks and the name
that is written or comes from its position.  A refusal is never empty, and names the field of every
rule that the draft breaks, but for names that repeat. -/
theorem compile_faithful (e : Edition) (c : CaseDraft) :
    ((∃ case, c.compile e = .ok case) ↔ c.WellFormed e.reference) ∧
      (∀ case, c.compile e = .ok case →
        List.Forall₂ (fun place question => place.1.Becomes place.2 question) c.questions.zipIdx
          case.questions) ∧
      ∀ problems, c.compile e = .error problems → problems ≠ [] ∧
        ∀ question field reason, c.Breaks e.reference question field reason →
          .malformed (.case c.number question) field reason ∈ problems := by
  refine ⟨exists_compile_iff, ?_, ?_⟩
  · intro case hcase
    obtain ⟨hproblems, _, rfl⟩ := compile_eq_ok_iff.mp hcase
    exact becomes_assemble hproblems
  · intro problems hrefused
    obtain ⟨hne, hall⟩ := mem_of_compile_eq_error hrefused
    refine ⟨hne, ?_⟩
    intro question field reason hbreaks
    exact hall _ (mem_problems_iff.mpr ⟨question, field, reason, hbreaks, rfl⟩)

/-- A case whose second question is named by its author, and whose first and third by their
places. -/
def riddle : CaseDraft where
  number := 11
  title := english "The riddle"
  difficulty := some "hard"
  scenario := english "A man comes home and weeps."
  questions :=
    [{ text := english "Is he alone?", answer := some "yes", unlocks := ["WAGER", "Q003"] },
      { id := some "WAGER", text := english "Did he win?", answer := some "irrelevant" },
      { text := english "Did he expect it?", answer := some "no", unlocks := ["SOLUTION"] }]
  solution := english "He had bet against himself."

/-- The riddle without a scenario, with a difficulty that nobody knows and a question that nobody
answers. -/
def unfinishedRiddle : CaseDraft :=
  { riddle with
    difficulty := some "nightmare"
    scenario := ∅
    questions := { text := english "Is he alone?" } :: riddle.questions.tail }

theorem wellFormed_riddle : riddle.WellFormed "english" where
  title := by cbv
  scenario := by cbv
  solution := by cbv
  hints := by simp [riddle]
  difficulty := by
    rintro name hname
    exact ⟨.hard, Option.some.inj hname⟩
  some_question := List.cons_ne_nil _ _
  questions := by
    intro q hq
    simp only [riddle, List.mem_cons, List.not_mem_nil, or_false] at hq
    rcases hq with rfl | rfl | rfl
    · exact ⟨by cbv, .yes, rfl⟩
    · exact ⟨by cbv, .irrelevant, rfl⟩
    · exact ⟨by cbv, .no, rfl⟩
  names := by decide

theorem compile_faithful_riddle :
    (∃ case, riddle.compile ⟨"english", none⟩ = .ok case ∧
      List.Forall₂ (fun place question => place.1.Becomes place.2 question) riddle.questions.zipIdx
        case.questions) ∧
    ∃ problems, unfinishedRiddle.compile ⟨"english", none⟩ = .error problems ∧
      .malformed (.case 11 none) "scenario" "missing 'english' text" ∈ problems ∧
      .malformed (.case 11 none) "difficulty" "unknown difficulty 'nightmare'" ∈ problems ∧
      .malformed (.case 11 (some "Q001")) "answer" "missing" ∈ problems := by
  obtain ⟨haccepts, hfaithful, _⟩ := compile_faithful ⟨"english", none⟩ riddle
  obtain ⟨case, hcase⟩ := haccepts.mpr wellFormed_riddle
  refine ⟨⟨case, hcase, hfaithful case hcase⟩, ?_⟩
  obtain ⟨haccepts, _, hrefuses⟩ := compile_faithful ⟨"english", none⟩ unfinishedRiddle
  cases hcompile : unfinishedRiddle.compile ⟨"english", none⟩ with
  | ok case =>
      obtain ⟨reply, hreply⟩ := ((haccepts.mp ⟨case, hcompile⟩).questions _ (.head _)).answer
      cases hreply
  | error problems =>
      obtain ⟨_, hall⟩ := hrefuses problems hcompile
      have hname : QuestionDraft.nameAt { text := english "Is he alone?" } 0 = "Q001" := by decide
      have hdifficulty := @Breaks.difficulty unfinishedRiddle "english" "nightmare" rfl (by decide)
      exact ⟨problems, rfl, hall _ _ _ (.scenario rfl), hall _ _ _ hdifficulty,
        hall _ _ _ (hname ▸ .question rfl (.noAnswer rfl))⟩

end CaseDraft

end BranchingStory
