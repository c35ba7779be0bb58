import Mathlib.Computability.Primrec.List
import BranchingStory.Proofs.Puzzle.Compiled
import BranchingStory.Proofs.Puzzle.Unlocks

/-!
# Playing a case

A player of a case may ask any question that is *available*.  At first these are the questions
that no other unlocks.  Asking a question makes those that it unlocks available, and one that
unlocks the solution solves the case.  Nothing that was available is lost again.

In a case without problems no play can go wrong.  Unlocks do not run in a circle, so every
question is reached from one that is available at first (`Case.exists_root_path`), and from
every question a path of unlocks leads to the solution (`Case.exists_path_solves`).  The player
can follow both (`Case.exists_plays_of_path`).
-/

namespace BranchingStory

/-- What a player has reached in a case. -/
structure Session where
  /-- The names of the questions that may be asked. -/
  available : List String
  /-- A question was asked that unlocks the solution. -/
  solved : Bool
deriving DecidableEq, Repr

/-- Asking a question makes available what it unlocks. -/
def Session.ask (s : Session) (q : Question) : Session :=
  ⟨s.available ++ q.targets, s.solved || q.solves⟩

namespace Case

/-- At first the questions that no question unlocks are available. -/
def start (c : Case) : Session := ⟨c.roots.map Question.id, false⟩

/-- The player asks an available question of the case. -/
inductive Asks (c : Case) : Session → Session → Prop where
  | ask {s : Session} {q : Question} :
      q ∈ c.questions → q.id ∈ s.available → Asks c s (s.ask q)

/-- The player asks any number of questions. -/
def Plays (c : Case) (s t : Session) : Prop := Relation.ReflTransGen c.Asks s t

variable {c : Case} {q : Question} {s t : Session} {a b : String}

/-! ## Plays -/

/-- What is available stays available, and a solved case stays solved. -/
theorem available_of_plays (h : c.Plays s t) :
    s.available ⊆ t.available ∧ (s.solved = true → t.solved = true) := by
  induction h with
  | refl => exact ⟨List.Subset.refl _, id⟩
  | tail _ hask ih =>
      cases hask with
      | ask _ _ =>
          refine ⟨fun a ha => List.mem_append_left _ (ih.1 ha), fun hsolved => ?_⟩
          simp [Session.ask, ih.2 hsolved]

/-! ## Paths of unlocks -/

/-- A player who may ask the first question of a path can make the last available. -/
theorem exists_plays_of_path (hids : c.ids.Nodup) (h : c.graph.Path a b) (ha : a ∈ c.ids)
    (hs : a ∈ s.available) : ∃ t, c.Plays s t ∧ b ∈ t.available := by
  induction h with
  | refl => exact ⟨s, .refl, hs⟩
  | step hpath hedge ih =>
      obtain ⟨t, hplays, hmem⟩ := ih
      obtain ⟨q, hq, rfl⟩ := mem_ids_iff.mp (hpath.mem_vertices ha)
      have htarget := ((edge_graph_iff hids hq).mp hedge).1
      exact ⟨t.ask q, hplays.tail (.ask hq hmem), List.mem_append_right _ htarget⟩

/-! ## Cases without problems -/

/-- The rules that a case without problems follows: questions unlock only questions of the case
and never in a circle, and each leads to the solution. -/
structure Clean (c : Case) : Prop where
  known : ∀ q ∈ c.questions, ∀ b ∈ q.targets, b ∈ c.ids
  cycles : c.cycles = []
  solvable : ∀ a ∈ c.ids, c.solvable a = true

theorem clean_of_problems_eq_nil (h : c.problems = []) : c.Clean := by
  obtain ⟨hunknown, hrest⟩ := List.append_eq_nil_iff.mp h
  have hcycles : c.cycles = [] := by
    split at hrest
    · assumption
    · exact List.map_eq_nil_iff.mp hrest
  rw [hcycles] at hrest
  refine ⟨fun q hq b hb => ?_, hcycles, fun a ha => ?_⟩
  · have hnone := List.flatMap_eq_nil_iff.mp hunknown q hq
    simp only [List.map_eq_nil_iff, List.filter_eq_nil_iff] at hnone
    simpa using hnone b hb
  · have hnone := List.filter_eq_nil_iff.mp (List.map_eq_nil_iff.mp hrest) a ha
    simpa [solvable] using hnone

/-- Every question is reached from one that is available at first. -/
theorem Clean.exists_root_path (h : c.Clean) (hids : c.ids.Nodup) (hb : b ∈ c.ids) :
    ∃ root ∈ c.roots, c.graph.Path root.id b := by
  obtain ⟨rank, bound, hbound, hrank⟩ :=
    Graph.exists_rank fun a _ => cycles_eq_nil_iff.mp h.cycles a
  obtain ⟨a, ha, hsource, hpath⟩ := Graph.exists_source hbound hrank b hb
  obtain ⟨root, hroot, rfl⟩ := mem_ids_iff.mp ha
  refine ⟨root, List.mem_filter.mpr ⟨hroot, ?_⟩, hpath⟩
  simp only [decide_eq_true_eq, List.mem_flatMap, not_exists, not_and]
  intro q hq htarget
  exact hsource q.id (id_mem_ids hq) ((edge_graph_iff hids hq).mpr ⟨htarget, ha⟩)

/-- From every question a path leads to one that unlocks the solution. -/
theorem Clean.exists_path_solves (h : c.Clean) (hids : c.ids.Nodup) (ha : a ∈ c.ids) :
    ∃ q ∈ c.questions, c.graph.Path a q.id ∧ q.solves = true := by
  obtain ⟨b, hpath, hsolves⟩ := (solvable_iff h.cycles ha).mp (h.solvable a ha)
  obtain ⟨q, hq, rfl⟩ := mem_ids_iff.mp (hpath.mem_vertices ha)
  refine ⟨q, hq, hpath, ?_⟩
  simpa [solves, unlocked?_eq_some hids hq] using hsolves

/-- A player who may ask some question can solve the case. -/
theorem Clean.exists_plays_solved (h : c.Clean) (hids : c.ids.Nodup) (ha : a ∈ c.ids)
    (hs : a ∈ s.available) : ∃ t, c.Plays s t ∧ t.solved = true := by
  obtain ⟨q, hq, hpath, hsolves⟩ := h.exists_path_solves hids ha
  obtain ⟨t, hplays, hmem⟩ := exists_plays_of_path hids hpath ha hs
  exact ⟨t.ask q, hplays.tail (.ask hq hmem), by simp [Session.ask, hsolves]⟩

end Case

/-- A compiled case without problems can be played.  Some question is available at first, every
question can be made available, and whatever was asked so far the case can still be solved. -/
theorem playable_of_problems_eq_nil (e : Edition) (d : CaseDraft) {c : Case}
    (hcompile : d.compile e = .ok c) (h : c.problems = []) :
    c.roots ≠ [] ∧
    (∀ q ∈ c.questions, ∃ s, c.Plays c.start s ∧ q.id ∈ s.available) ∧
    ∀ s, c.Plays c.start s → ∃ t, c.Plays s t ∧ t.solved = true := by
  have hids := CaseDraft.nodup_ids_of_compile hcompile
  have hclean := Case.clean_of_problems_eq_nil h
  have hreach : ∀ q ∈ c.questions, ∃ root ∈ c.roots, c.graph.Path root.id q.id :=
    fun q hq => hclean.exists_root_path hids (Case.id_mem_ids hq)
  obtain ⟨q, hq⟩ := List.exists_mem_of_ne_nil _ (CaseDraft.questions_ne_nil_of_compile hcompile)
  obtain ⟨root, hroot, _⟩ := hreach q hq
  have hopen : ∀ root ∈ c.roots, root.id ∈ c.ids ∧ root.id ∈ c.start.available := fun root hroot =>
    ⟨Case.id_mem_ids (List.mem_of_mem_filter hroot), List.mem_map_of_mem hroot⟩
  refine ⟨List.ne_nil_of_mem hroot, fun q hq => ?_, fun s hplays => ?_⟩
  · obtain ⟨root, hroot, hpath⟩ := hreach q hq
    exact Case.exists_plays_of_path hids hpath (hopen root hroot).1 (hopen root hroot).2
  · have havailable := (Case.available_of_plays hplays).1 (hopen root hroot).2
    exact hclean.exists_plays_solved hids (hopen root hroot).1 havailable

/-- A case whose last question is the first to be available.  Both questions that it unlocks
unlock the one that solves the case. -/
def lighthouse : CaseDraft where
  number := 7
  title := english "The lighthouse"
  scenario := english "The keeper turned off the light and went to bed."
  questions :=
    [{ id := some "SHIP", text := english "Was there a ship?", answer := some "yes",
       unlocks := ["SOLUTION"] },
      { text := english "Did he know?", answer := some "no", unlocks := ["SHIP"] },
      { text := english "Was it night?", answer := some "yes", unlocks := ["SHIP"] },
      { id := some "LIGHT", text := english "Was the light needed?", answer := some "yes",
        unlocks := ["Q002", "Q003", "Q002"] }]
  solution := english "He had wrecked a ship."

theorem problems_lighthouse : lighthouse.assemble.problems = [] := by cbv

theorem playable_lighthouse :
    lighthouse.compile ⟨"english", none⟩ = .ok lighthouse.assemble ∧
    lighthouse.assemble.problems = [] ∧
    lighthouse.assemble.roots.map Question.id = ["LIGHT"] ∧
    ∃ t, lighthouse.assemble.Plays lighthouse.assemble.start t ∧ t.solved = true := by
  have hcompile : lighthouse.compile ⟨"english", none⟩ = .ok lighthouse.assemble := rfl
  have hplay := playable_of_problems_eq_nil _ _ hcompile problems_lighthouse
  exact ⟨hcompile, problems_lighthouse, rfl, hplay.2.2 _ .refl⟩

end BranchingStory
