import BranchingStory.Graph.Survey
import BranchingStory.Proofs.Graph.Acyclic
import BranchingStory.Proofs.Lookup
import BranchingStory.Proofs.Loop

/-!
# Surveys

`Survey.moves_iff` says once what one step of a survey can do.  A vertex is answered only after
the ends of its edges.  So the answers are right, and a circular vertex never has one
(`Survey.Sound`).

If a rank falls along every edge, a vertex waits for vertices of lower rank only.  By induction on
the rank the survey takes each vertex off its stack again, with an answer
(`Graph.answerable_of_rank`).  So a survey of all vertices ends exactly if none of them is
circular (`Graph.exists_endsIn_surveyStep_iff`).
-/

namespace BranchingStory.Graph

/-- A path leads from the vertex to a goal. -/
def LeadsTo {α : Type} (g : Graph α) (goal : α → Bool) (a : α) : Prop :=
  ∃ b, g.Path a b ∧ goal b = true

variable {α : Type} [DecidableEq α] {g : Graph α} {goal : α → Bool} {a b : α}
  {starts rest : List α} {answers : List (α × Bool)}

omit [DecidableEq α] in
/-- A vertex leads to a goal if it is one or if the end of one of its edges leads to one. -/
theorem leadsTo_iff : g.LeadsTo goal a ↔ goal a = true ∨ ∃ b, g.Edge a b ∧ g.LeadsTo goal b := by
  constructor
  · rintro ⟨c, hp, hgoal⟩
    rcases path_iff_head.mp hp with rfl | ⟨b, he, hp⟩
    · exact .inl hgoal
    · exact .inr ⟨b, he, c, hp, hgoal⟩
  · rintro (hgoal | ⟨b, he, c, hp, hgoal⟩)
    · exact ⟨a, .refl, hgoal⟩
    · exact ⟨c, .head he hp, hgoal⟩

/-! ## One step -/

theorem mem_pending : b ∈ g.pending answers a ↔ g.Edge a b ∧ b ∉ answers.map Prod.fst := by
  rw [pending, List.mem_filter, mem_ends, decide_eq_true_eq, ← lookup_ne_none_iff, not_not]

theorem pending_eq_nil_iff :
    g.pending answers a = [] ↔ ∀ b, g.Edge a b → b ∈ answers.map Prod.fst := by
  simp only [List.eq_nil_iff_forall_not_mem, mem_pending, not_and, not_not]

/-- What one step of a survey can do. -/
inductive Survey.Moves (g : Graph α) (goal : α → Bool) : Survey α → Survey α → Prop where
  | start {a : α} {starts : List α} {answers : List (α × Bool)} :
      Moves g goal ⟨a :: starts, [], answers⟩ ⟨starts, [a], answers⟩
  | drop {a : α} {starts rest : List α} {answers : List (α × Bool)} :
      a ∈ answers.map Prod.fst →
      Moves g goal ⟨starts, a :: rest, answers⟩ ⟨starts, rest, answers⟩
  | answer {a : α} {starts rest : List α} {answers : List (α × Bool)} :
      a ∉ answers.map Prod.fst → g.pending answers a = [] →
      Moves g goal ⟨starts, a :: rest, answers⟩
        ⟨starts, rest, (a, g.answerFrom goal answers a) :: answers⟩
  | wait {a : α} {starts rest : List α} {answers : List (α × Bool)} :
      a ∉ answers.map Prod.fst → g.pending answers a ≠ [] →
      Moves g goal ⟨starts, a :: rest, answers⟩
        ⟨starts, (g.pending answers a).reverse ++ a :: rest, answers⟩

theorem Survey.moves_iff {s t : Survey α} :
    g.surveyStep goal s = some t ↔ s.Moves g goal t := by
  have hkey : ∀ (answers : List (α × Bool)) (a : α),
      (answers.lookup a).isSome = true ↔ a ∈ answers.map Prod.fst := fun _ _ => by
    rw [Option.isSome_iff_ne_none, lookup_ne_none_iff]
  constructor
  · intro h
    obtain ⟨starts, stack, answers⟩ := s
    cases stack with
    | nil =>
        cases starts with
        | nil => simp [surveyStep] at h
        | cons a starts =>
            obtain rfl := Option.some.inj h
            exact .start
    | cons a rest =>
        simp only [surveyStep, hkey] at h
        split at h
        · obtain rfl := Option.some.inj h
          exact .drop ‹_›
        · split at h
          · obtain rfl := Option.some.inj h
            exact .answer ‹_› ‹_›
          · obtain rfl := Option.some.inj h
            exact .wait ‹_› ‹_›
  · intro h
    cases h with
    | start => rfl
    | drop hmem => simp only [surveyStep, hkey, hmem, if_true]
    | answer hfresh hnil => simp only [surveyStep, hkey, hfresh, if_false, hnil]
    | wait hfresh hpending =>
        simp only [surveyStep, hkey, hfresh, if_false]

/-- A survey ends with an empty stack, having started everywhere. -/
theorem eq_nil_of_surveyStep {s : Survey α} (h : g.surveyStep goal s = none) :
    s.stack = [] ∧ s.starts = [] := by
  obtain ⟨starts, stack, answers⟩ := s
  cases stack with
  | nil =>
      cases starts with
      | nil => exact ⟨rfl, rfl⟩
      | cons a starts => simp [surveyStep] at h
  | cons a rest =>
      simp only [surveyStep] at h
      split at h
      · simp at h
      · split at h <;> simp at h

/-- The vertex has an answer or is still to get one. -/
def Survey.Covers (s : Survey α) (a : α) : Prop :=
  a ∈ s.starts ∨ a ∈ s.stack ∨ a ∈ s.answers.map Prod.fst

/-- No vertex is forgotten. -/
theorem Survey.Covers.of_moves {s t : Survey α} (hs : s.Covers b) (h : s.Moves g goal t) :
    t.Covers b := by
  cases h with
  | start =>
      rcases hs with hb | hb | hb
      · rcases List.mem_cons.mp hb with rfl | hb
        · exact .inr (.inl (.head _))
        · exact .inl hb
      · cases hb
      · exact .inr (.inr hb)
  | drop hmem =>
      refine hs.imp_right fun hb => ?_
      rcases hb with hb | hb
      · rcases List.mem_cons.mp hb with rfl | hb
        · exact .inr hmem
        · exact .inl hb
      · exact .inr hb
  | answer _ _ =>
      refine hs.imp_right fun hb => ?_
      rcases hb with hb | hb
      · rcases List.mem_cons.mp hb with rfl | hb
        · exact .inr (.head _)
        · exact .inl hb
      · exact .inr (.tail _ hb)
  | wait _ _ => exact hs.imp_right (.imp_left (List.mem_append_right _))

/-! ## The answers -/

/-- What is true throughout a survey from the given starts. -/
structure Survey.Sound (g : Graph α) (goal : α → Bool) (starts : List α) (s : Survey α) :
    Prop where
  right : ∀ p ∈ s.answers, p.2 = true ↔ g.LeadsTo goal p.1
  settled : g.Settled [] (s.answers.map Prod.fst)
  covered : ∀ a ∈ starts, s.Covers a

/-- Right answers for the ends of all edges give the right answer. -/
theorem answerFrom_iff (hright : ∀ p ∈ answers, p.2 = true ↔ g.LeadsTo goal p.1)
    (hnil : g.pending answers a = []) :
    g.answerFrom goal answers a = true ↔ g.LeadsTo goal a := by
  have hend : ∀ b, g.Edge a b → (answers.lookup b = some true ↔ g.LeadsTo goal b) := by
    intro b he
    obtain ⟨answer, hlookup⟩ :=
      Option.ne_none_iff_exists'.mp (lookup_ne_none_iff.mpr (pending_eq_nil_iff.mp hnil b he))
    rw [hlookup, Option.some.injEq]
    exact hright _ (mem_of_lookup hlookup)
  rw [leadsTo_iff, answerFrom, Bool.or_eq_true, List.any_eq_true]
  refine or_congr_right (exists_congr fun b => ?_)
  rw [mem_ends, decide_eq_true_eq]
  exact and_congr_right (hend b)

theorem Survey.Sound.of_moves {s t : Survey α} (hs : s.Sound g goal starts)
    (h : s.Moves g goal t) : t.Sound g goal starts := by
  have hcovered : ∀ a ∈ starts, t.Covers a := fun a ha => (hs.covered a ha).of_moves h
  obtain ⟨hright, hsettled, _⟩ := hs
  cases h with
  | start => exact ⟨hright, hsettled, hcovered⟩
  | drop _ => exact ⟨hright, hsettled, hcovered⟩
  | answer _ hnil =>
      refine ⟨List.forall_mem_cons.mpr ⟨answerFrom_iff hright hnil, hright⟩, ?_, hcovered⟩
      exact hsettled.cons fun b he => .inl (pending_eq_nil_iff.mp hnil b he)
  | wait _ _ => exact ⟨hright, hsettled, hcovered⟩

theorem Survey.sound_of_runs {s : Survey α}
    (h : Loop.Runs (g.surveyStep goal) { starts := starts } s) : s.Sound g goal starts := by
  refine h.preserves (fun _ _ hs hstep => hs.of_moves (moves_iff.mp hstep)) ?_
  exact ⟨by simp, .nil, fun a ha => .inl ha⟩

/-- A survey that ends has an answer for everything it started from, and no circular vertex has
one. -/
theorem answered_of_endsIn {s : Survey α}
    (h : Loop.EndsIn (g.surveyStep goal) { starts := starts } s) (ha : a ∈ starts) :
    a ∈ s.answers.map Prod.fst ∧ ¬ g.Circular a := by
  have hsound := Survey.sound_of_runs h.runs
  obtain ⟨hstack, hstarts⟩ := eq_nil_of_surveyStep h.last
  have hmem : a ∈ s.answers.map Prod.fst := by
    have hcovers := hsound.covered a ha
    rw [Survey.Covers, hstack, hstarts] at hcovers
    simpa using hcovers
  refine ⟨hmem, ?_⟩
  intro hcircular
  obtain ⟨_, hcycle, _⟩ := hsound.settled.knotted hmem hcircular
  cases hcycle

/-! ## The end of a survey -/

/-- Whatever waits below it, the survey takes the vertex off the stack, and then has an answer
for it. -/
def Answerable (g : Graph α) (goal : α → Bool) (a : α) : Prop :=
  ∀ starts rest answers, ∃ answers' : List (α × Bool),
    Loop.Runs (g.surveyStep goal) ⟨starts, a :: rest, answers⟩ ⟨starts, rest, answers'⟩ ∧
      answers <:+ answers' ∧ a ∈ answers'.map Prod.fst

omit [DecidableEq α] in
theorem mem_keys_of_suffix {answers' : List (α × Bool)} (h : answers <:+ answers')
    (ha : a ∈ answers.map Prod.fst) : a ∈ answers'.map Prod.fst :=
  (h.map Prod.fst).subset ha

/-- The survey takes all vertices of a list off the stack, one after another. -/
theorem exists_runs_of_answerable {l : List α} (h : ∀ a ∈ l, g.Answerable goal a)
    (starts rest : List α) (answers : List (α × Bool)) : ∃ answers' : List (α × Bool),
    Loop.Runs (g.surveyStep goal) ⟨starts, l ++ rest, answers⟩ ⟨starts, rest, answers'⟩ ∧
      answers <:+ answers' ∧ ∀ a ∈ l, a ∈ answers'.map Prod.fst := by
  induction l generalizing answers with
  | nil => exact ⟨answers, .refl _, List.suffix_rfl, by simp⟩
  | cons a l ih =>
      obtain ⟨ha, hl⟩ := List.forall_mem_cons.mp h
      obtain ⟨answers₁, hruns₁, hsuffix₁, hanswered₁⟩ := ha starts (l ++ rest) answers
      obtain ⟨answers₂, hruns₂, hsuffix₂, hanswered₂⟩ := ih hl answers₁
      refine ⟨answers₂, hruns₁.trans hruns₂, hsuffix₁.trans hsuffix₂, ?_⟩
      exact List.forall_mem_cons.mpr ⟨mem_keys_of_suffix hsuffix₂ hanswered₁, hanswered₂⟩

/-- Once nothing is pending, the survey takes the vertex off the stack in one step. -/
theorem exists_step_of_pending_eq_nil (hnil : g.pending answers a = []) (starts rest : List α) :
    ∃ answers', g.surveyStep goal ⟨starts, a :: rest, answers⟩ = some ⟨starts, rest, answers'⟩ ∧
      answers <:+ answers' ∧ a ∈ answers'.map Prod.fst := by
  by_cases hmem : a ∈ answers.map Prod.fst
  · exact ⟨answers, Survey.moves_iff.mpr (.drop hmem), List.suffix_rfl, hmem⟩
  · exact ⟨_, Survey.moves_iff.mpr (.answer hmem hnil), List.suffix_cons .., .head _⟩

/-- A vertex is answerable if the ends of its edges are. -/
theorem answerable_of_ends (h : ∀ b, g.Edge a b → g.Answerable goal b) : g.Answerable goal a := by
  intro starts rest answers
  by_cases hmem : a ∈ answers.map Prod.fst
  · exact ⟨answers, .single (Survey.moves_iff.mpr (.drop hmem)), List.suffix_rfl, hmem⟩
  by_cases hnil : g.pending answers a = []
  · obtain ⟨answers', hstep, hsuffix, hmem⟩ := exists_step_of_pending_eq_nil hnil starts rest
    exact ⟨answers', .single hstep, hsuffix, hmem⟩
  have hwait : g.surveyStep goal ⟨starts, a :: rest, answers⟩ =
      some ⟨starts, (g.pending answers a).reverse ++ a :: rest, answers⟩ :=
    Survey.moves_iff.mpr (.wait hmem hnil)
  obtain ⟨answers₁, hruns, hsuffix, hanswered⟩ := exists_runs_of_answerable
    (fun b hb => h b (mem_pending.mp (List.mem_reverse.mp hb)).1) starts (a :: rest) answers
  -- What was pending is answered now, and the other ends were answered before.
  have hnil₁ : g.pending answers₁ a = [] := by
    rw [pending_eq_nil_iff]
    intro b he
    by_cases hb : b ∈ answers.map Prod.fst
    · exact mem_keys_of_suffix hsuffix hb
    · exact hanswered b (List.mem_reverse.mpr (mem_pending.mpr ⟨he, hb⟩))
  obtain ⟨answers₂, hstep, hsuffix₂, hmem₂⟩ := exists_step_of_pending_eq_nil hnil₁ starts rest
  exact ⟨answers₂, ((Loop.Runs.single hwait).trans hruns).trans (.single hstep),
    hsuffix.trans hsuffix₂, hmem₂⟩

/-- If a rank falls along every edge, all vertices are answerable. -/
theorem answerable_of_rank {rank : α → Nat}
    (hrank : ∀ a ∈ g.vertices, ∀ b, g.Edge a b → rank b < rank a) (ha : a ∈ g.vertices) :
    g.Answerable goal a := by
  induction h : rank a using Nat.strong_induction_on generalizing a with
  | h n ih =>
      subst h
      exact answerable_of_ends fun b he => ih (rank b) (hrank a ha b he) he.2 rfl

/-- A survey of answerable vertices ends. -/
theorem exists_endsIn_of_answerable (h : ∀ a ∈ starts, g.Answerable goal a)
    (answers : List (α × Bool)) :
    ∃ s, Loop.EndsIn (g.surveyStep goal) ⟨starts, [], answers⟩ s := by
  induction starts generalizing answers with
  | nil => exact ⟨_, .refl _, rfl⟩
  | cons a starts ih =>
      obtain ⟨ha, hstarts⟩ := List.forall_mem_cons.mp h
      obtain ⟨answers', hruns, _, _⟩ := ha starts [] answers
      obtain ⟨s, hend⟩ := ih hstarts answers'
      have hstart : g.surveyStep goal ⟨a :: starts, [], answers⟩ = some ⟨starts, [a], answers⟩ :=
        Survey.moves_iff.mpr .start
      exact ⟨s, ((Loop.Runs.single hstart).trans hruns).trans hend.runs, hend.last⟩

/-- A survey of a graph without circular vertices ends. -/
theorem exists_endsIn_surveyStep (h : ∀ a, ¬ g.Circular a) (hstarts : starts ⊆ g.vertices) :
    ∃ s, Loop.EndsIn (g.surveyStep goal) { starts := starts } s := by
  obtain ⟨rank, _, _, hrank⟩ := exists_rank fun a _ => h a
  exact exists_endsIn_of_answerable (fun a ha => answerable_of_rank hrank (hstarts ha)) []

/-- A survey of all vertices ends exactly if none of them is circular. -/
theorem exists_endsIn_surveyStep_iff (hstarts : starts ⊆ g.vertices)
    (hall : g.vertices ⊆ starts) :
    (∃ s, Loop.EndsIn (g.surveyStep goal) { starts := starts } s) ↔ ∀ a, ¬ g.Circular a := by
  constructor
  · rintro ⟨s, hend⟩ a hcircular
    exact (answered_of_endsIn hend (hall hcircular.mem_vertices)).2 hcircular
  · exact fun h => exists_endsIn_surveyStep h hstarts

/-- The answers of a survey are those that it ends with. -/
theorem survey_eq {s : Survey α} (h : Loop.EndsIn (g.surveyStep goal) { starts := starts } s) :
    g.survey goal starts = s.answers := by
  rw [survey, Loop.run_eq_some_iff.mpr h, Option.map_some, Option.getD_some]

/-- A survey of a graph without circular vertices finds out which vertices lead to a goal. -/
theorem lookup_survey_iff (h : ∀ a, ¬ g.Circular a) (hstarts : starts ⊆ g.vertices)
    (ha : a ∈ starts) :
    ((g.survey goal starts).lookup a).getD false = true ↔ g.LeadsTo goal a := by
  obtain ⟨s, hend⟩ : ∃ s, Loop.EndsIn (g.surveyStep goal) { starts := starts } s :=
    exists_endsIn_surveyStep h hstarts
  obtain ⟨answer, hlookup⟩ :=
    Option.ne_none_iff_exists'.mp (lookup_ne_none_iff.mpr (answered_of_endsIn hend ha).1)
  rw [survey_eq hend, hlookup, Option.getD_some]
  exact (Survey.sound_of_runs hend.runs).right _ (mem_of_lookup hlookup)

end BranchingStory.Graph
