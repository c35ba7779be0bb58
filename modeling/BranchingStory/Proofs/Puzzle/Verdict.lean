import Mathlib.Computability.Primrec.List
import BranchingStory.Draft
import BranchingStory.Proofs.Puzzle.Unlocks

/-!
# The verdict on a case

What the checks of a case report, said through the unlocks alone.  Unlocks of questions that do not
exist are reported one by one (`Case.missing`).  In a case with circles there follow some of the
circles, at least one for each knot of questions that unlock each other.  In a case without circles
there follow the questions that do not lead to the solution.

Both searches of the checks are loops with a stack of their own.  The search for circles ends for
every case.  The search for the solution would go around a circle forever.  So it ends exactly where
the first search has found none, and then it has an answer for every question.
-/

namespace BranchingStory

namespace Case

variable {c : Case} {a : String}

/-! ## The parts of the report -/

/-- The unlocks of questions that the case does not have, each with the question that has it. -/
def missing (c : Case) : List (String × String) :=
  (c.questions.flatMap fun q => q.targets.map (q.id, ·)).filter (·.2 ∉ c.ids)

theorem unknownUnlocks_eq :
    c.unknownUnlocks = c.missing.map fun unlock => .unknownUnlock c.caseId unlock.1 unlock.2 := by
  simp only [unknownUnlocks, missing, List.filter_flatMap, List.map_flatMap, List.filter_map,
    List.map_map]
  rfl

theorem missing_eq_nil_iff : c.missing = [] ↔ ∀ q ∈ c.questions, ∀ b ∈ q.targets, b ∈ c.ids := by
  rw [missing, List.filter_eq_nil_iff]
  simp only [decide_not, List.forall_mem_flatMap, List.forall_mem_map]
  simp

/-- A circle is reported exactly if there is one. -/
theorem cycles_ne_nil_iff (hids : c.ids.Nodup) : c.cycles ≠ [] ↔ c.Circular := by
  rw [ne_eq, cycles_eq_nil_iff, not_forall]
  exact exists_congr fun a => by rw [not_not, circular_graph_iff hids]

/-- In a case without circles, a question is reported exactly if it does not lead to the
solution. -/
theorem mem_unsolvable_iff (hids : c.ids.Nodup) (h : c.cycles = []) (ha : a ∈ c.ids) :
    a ∈ c.unsolvable ↔ ¬ c.LeadsToSolution a := by
  rw [← leadsTo_graph_iff hids ha, ← solvable_iff h ha]
  simp [unsolvable, solvable, ha]

theorem problems_of_cycles_eq_nil (h : c.cycles = []) :
    c.problems = c.unknownUnlocks ++ c.unsolvable.map (.solutionUnreachable c.caseId ·) := by
  rw [problems, h]

theorem problems_of_cycles_ne_nil (h : c.cycles ≠ []) :
    c.problems = c.unknownUnlocks ++ c.cycles.map (.cyclicUnlock c.caseId ·) := by
  rw [problems]
  split
  · contradiction
  · rfl

/-- The circles in the report are those that the walk finds. -/
theorem cyclicUnlock_mem_problems_iff {name : String} {cycle : List String} :
    .cyclicUnlock name cycle ∈ c.problems ↔ name = c.caseId ∧ cycle ∈ c.cycles := by
  have hunknown : .cyclicUnlock name cycle ∉ c.unknownUnlocks := by simp [unknownUnlocks]
  by_cases h : c.cycles = []
  · rw [problems_of_cycles_eq_nil h, h]
    simp [hunknown]
  · rw [problems_of_cycles_ne_nil h]
    simp [hunknown, eq_comm, and_comm]

/-! ## The report -/

/-- The report lists the unknown unlocks in order, and then the rest. -/
def Reports (c : Case) (rest : List Diagnostic) : Prop :=
  c.problems =
    c.missing.map (fun unlock => .unknownUnlock c.caseId unlock.1 unlock.2) ++ rest

theorem reports_of_circular (hids : c.ids.Nodup) (h : c.Circular) :
    ∃ cycles, cycles ≠ [] ∧ c.Reports (cycles.map (.cyclicUnlock c.caseId ·)) := by
  have hcycles := (cycles_ne_nil_iff hids).mpr h
  refine ⟨c.cycles, hcycles, ?_⟩
  rw [Reports, problems_of_cycles_ne_nil hcycles, unknownUnlocks_eq]

theorem reports_of_not_circular (hids : c.ids.Nodup) (h : ¬ c.Circular) :
    ∃ stuck : List String, stuck.Sublist c.ids ∧
      (∀ a ∈ c.ids, a ∈ stuck ↔ ¬ c.LeadsToSolution a) ∧
      c.Reports (stuck.map (.solutionUnreachable c.caseId ·)) := by
  have hcycles : c.cycles = [] := not_not.mp (mt (cycles_ne_nil_iff hids).mp h)
  refine ⟨c.unsolvable, List.filter_sublist, fun a => mem_unsolvable_iff hids hcycles, ?_⟩
  rw [Reports, problems_of_cycles_eq_nil hcycles, unknownUnlocks_eq]

theorem Reports.eq_nil_iff {rest : List Diagnostic} (h : c.Reports rest) :
    c.problems = [] ↔ (∀ q ∈ c.questions, ∀ b ∈ q.targets, b ∈ c.ids) ∧ rest = [] := by
  rw [h, List.append_eq_nil_iff, List.map_eq_nil_iff, missing_eq_nil_iff]

/-- Nothing is reported exactly if every unlock is known, no questions unlock each other in a
circle and every question leads to the solution. -/
theorem problems_eq_nil_iff (hids : c.ids.Nodup) : c.problems = [] ↔
    (∀ q ∈ c.questions, ∀ b ∈ q.targets, b ∈ c.ids) ∧ ¬ c.Circular ∧
      ∀ a ∈ c.ids, c.LeadsToSolution a := by
  by_cases h : c.Circular
  · obtain ⟨cycles, hcycles, hreports⟩ := reports_of_circular hids h
    rw [hreports.eq_nil_iff, List.map_eq_nil_iff]
    exact iff_of_false (fun hnil => hcycles hnil.2) fun hclean => hclean.2.1 h
  · obtain ⟨stuck, hsub, hmem, hreports⟩ := reports_of_not_circular hids h
    have hstuck : stuck = [] ↔ ∀ a ∈ c.ids, c.LeadsToSolution a := by
      rw [List.eq_nil_iff_forall_not_mem]
      exact ⟨fun hnone a ha => not_not.mp (mt (hmem a ha).mpr (hnone a)),
        fun hleads a ha => (hmem a (hsub.subset ha)).mp ha (hleads a (hsub.subset ha))⟩
    rw [hreports.eq_nil_iff, List.map_eq_nil_iff, hstuck]
    exact and_congr_right fun _ => (and_iff_right h).symm

end Case

/-- The verdict on a case with distinct names.  Nothing is reported exactly if every unlock is
known, no questions unlock each other in a circle and every question leads to the solution.
Otherwise the report lists the unknown unlocks, and then either circles or, in order, the questions
that do not lead to the solution. -/
theorem verdict_exact (c : Case) (hids : c.ids.Nodup) :
    (c.problems = [] ↔ (∀ q ∈ c.questions, ∀ b ∈ q.targets, b ∈ c.ids) ∧ ¬ c.Circular ∧
      ∀ a ∈ c.ids, c.LeadsToSolution a) ∧
    (c.Circular → ∃ cycles, cycles ≠ [] ∧ c.Reports (cycles.map (.cyclicUnlock c.caseId ·))) ∧
    (¬ c.Circular → ∃ stuck : List String, stuck.Sublist c.ids ∧
      (∀ a ∈ c.ids, a ∈ stuck ↔ ¬ c.LeadsToSolution a) ∧
      c.Reports (stuck.map (.solutionUnreachable c.caseId ·))) :=
  ⟨Case.problems_eq_nil_iff hids, Case.reports_of_circular hids,
    Case.reports_of_not_circular hids⟩

/-- A house in which the hall and the stairs lead to each other and the stairs also to themselves.
Nothing leads on from the cellar, and the attic is only spoken of. -/
def house : Case where
  number := 9
  caseId := "CASE_009"
  title := english "The house"
  difficulty := .hard
  scenario := english "Nobody has seen the heir leave."
  questions :=
    [⟨"GATE", english "Did he pass the gate?", .no, [.question "HALL", .question "CELLAR"]⟩,
      ⟨"HALL", english "Was he in the hall?", .yes, [.question "STAIRS", .solution]⟩,
      ⟨"STAIRS", english "Did he take the stairs?", .yes,
        [.question "ATTIC", .question "HALL", .question "STAIRS", .question "ATTIC"]⟩,
      ⟨"CELLAR", english "Was it damp?", .irrelevant, []⟩]
  solution := english "He never came home."
  hints := []
  estimatedTime := none

theorem Case.nodup_ids_house : house.ids.Nodup := by decide

theorem Case.circular_house : house.Circular := by
  refine ⟨"STAIRS", .single ?_⟩
  exact ⟨_, .tail _ (.tail _ (.head _)), rfl, by decide, by decide⟩

theorem verdict_exact_house : house.ids.Nodup ∧ house.Circular ∧
    ∃ cycles, cycles ≠ [] ∧ house.problems =
      [.unknownUnlock "CASE_009" "STAIRS" "ATTIC", .unknownUnlock "CASE_009" "STAIRS" "ATTIC"]
        ++ cycles.map (.cyclicUnlock "CASE_009" ·) :=
  ⟨Case.nodup_ids_house, Case.circular_house,
    (verdict_exact house Case.nodup_ids_house).2.1 Case.circular_house⟩

/-! ## The circles -/

/-- The circles in the report on a case with distinct names.  Each runs once around questions that
unlock one another.  The walk that finds them looks an entered question up on its route and finds
it there.  Of every question that lies on a circle, some reported circle runs through questions
that lead to it and that it leads to. -/
theorem circles_sound_and_complete (c : Case) (hids : c.ids.Nodup) :
    (∀ name cycle, .cyclicUnlock name cycle ∈ c.problems →
      2 ≤ cycle.length ∧ cycle.head? = cycle.getLast? ∧ cycle.dropLast.Nodup ∧
        cycle.IsChain c.Unlocks) ∧
    (∀ w, Loop.Runs c.graph.walkStep { starts := c.walkOrder } w → ∀ a,
      w.mark? a = some .entered ↔ (w.route.idxOf? a).isSome) ∧
    ∀ a, Relation.TransGen c.Unlocks a a → ∃ cycle, .cyclicUnlock c.caseId cycle ∈ c.problems ∧
      ∀ b ∈ cycle, Relation.ReflTransGen c.Unlocks a b ∧ Relation.ReflTransGen c.Unlocks b a := by
  refine ⟨?_, ?_, ?_⟩
  · intro name cycle h
    have hcycle : c.graph.IsCycle cycle :=
      Graph.isCycle_of_mem_cyclesFrom (Case.cyclicUnlock_mem_problems_iff.mp h).2
    exact ⟨hcycle.two_le, hcycle.closed, hcycle.nodup, Case.edge_graph_eq hids ▸ hcycle.chain⟩
  · intro w hruns a
    rw [(Graph.Walk.sound_of_runs hruns).routed.entered_iff, List.isSome_idxOf?,
      Graph.Walk.route, List.mem_reverse]
  · intro a h
    have hcircular := (Case.circular_graph_iff hids).mpr h
    obtain ⟨cycle, hmem, hpaths⟩ := Graph.knotted_of_circular
      (Case.ids_subset_walkOrder hcircular.mem_vertices) hcircular
    refine ⟨cycle, Case.cyclicUnlock_mem_problems_iff.mpr ⟨rfl, hmem⟩, ?_⟩
    intro b hb
    exact ⟨(Case.path_graph_iff hids).mp (hpaths b hb).1,
      (Case.path_graph_iff hids).mp (hpaths b hb).2⟩

theorem circles_sound_and_complete_house : house.ids.Nodup ∧
    Relation.TransGen house.Unlocks "HALL" "HALL" ∧
    ∃ cycle, .cyclicUnlock "CASE_009" cycle ∈ house.problems ∧
      ∀ b ∈ cycle, Relation.ReflTransGen house.Unlocks "HALL" b ∧
        Relation.ReflTransGen house.Unlocks b "HALL" := by
  have hhall : house.Unlocks "HALL" "STAIRS" := ⟨_, .tail _ (.head _), rfl, by decide, by decide⟩
  have hstairs : house.Unlocks "STAIRS" "HALL" :=
    ⟨_, .tail _ (.tail _ (.head _)), rfl, by decide, by decide⟩
  have hcircle : Relation.TransGen house.Unlocks "HALL" "HALL" := .tail (.single hhall) hstairs
  exact ⟨Case.nodup_ids_house, hcircle,
    (circles_sound_and_complete house Case.nodup_ids_house).2.2 "HALL" hcircle⟩

/-! ## The end of the checks -/

/-- The checks of every case end.  The walk for circles ends with the circles that are reported.
The survey for the solution ends exactly if there are none, and then has an answer for every
question. -/
theorem checks_end (c : Case) :
    (∃ w, Loop.EndsIn c.graph.walkStep { starts := c.walkOrder } w ∧ w.cycles = c.cycles) ∧
    (c.cycles = [] ↔ ∃ s, Loop.EndsIn (c.graph.surveyStep c.solves) { starts := c.ids } s) ∧
    ∀ s, Loop.EndsIn (c.graph.surveyStep c.solves) { starts := c.ids } s →
      c.prospects = s.answers ∧ ∀ a ∈ c.ids, c.prospects.lookup a ≠ none := by
  refine ⟨Graph.exists_endsIn_cyclesFrom c.graph c.walkOrder, ?_, ?_⟩
  · rw [Case.cycles_eq_nil_iff]
    exact (Graph.exists_endsIn_surveyStep_iff (List.Subset.refl _) (List.Subset.refl _)).symm
  · intro s hend
    have hprospects : c.prospects = s.answers := Graph.survey_eq hend
    refine ⟨hprospects, ?_⟩
    intro a ha
    rw [hprospects, lookup_ne_none_iff]
    exact (Graph.answered_of_endsIn hend ha).1

/-- Two questions of one name.  The last of them counts, so the first does not unlock itself. -/
def echo : Case where
  number := 10
  caseId := "CASE_010"
  title := english "The echo"
  difficulty := .easy
  scenario := english "Somebody calls, and somebody answers."
  questions :=
    [⟨"CALL", english "Was there a call?", .yes, [.question "CALL"]⟩,
      ⟨"CALL", english "Was it an echo?", .yes, [.question "NOBODY", .solution, .solution]⟩]
  solution := english "He was alone in the valley."
  hints := []
  estimatedTime := none

theorem checks_end_echo : echo.cycles = [] ∧
    ∃ s, Loop.EndsIn (echo.graph.surveyStep echo.solves) { starts := echo.ids } s ∧
      echo.prospects.lookup "CALL" ≠ none := by
  have hcycles : echo.cycles = [] := by cbv
  obtain ⟨s, hend⟩ := (checks_end echo).2.1.mp hcycles
  exact ⟨hcycles, s, hend, ((checks_end echo).2.2 s hend).2 "CALL" (.head _)⟩

end BranchingStory
