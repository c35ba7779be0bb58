import BranchingStory.Graph.Reachability
import BranchingStory.Proofs.Graph.Paths
import BranchingStory.Proofs.Loop

/-!
# Searches

`Search.moves_iff` says once what one step of a search can do.  A search knows a vertex that it
has visited or is still to visit.  No step forgets a vertex, and a visit makes known what the edges
of the vertex lead to and nothing else.  So what is known is reached from the start, and the edges
of the visited vertices lead to known ones (`Search.Sound`).

A step visits one more vertex or takes a visited one off the stack, so a search ends
(`Graph.exists_endsIn_searchStep`).  With nothing left to visit the known vertices are the visited
ones, and these are exactly the vertices that paths from the start reach
(`Graph.mem_reachable_iff`).
-/

namespace BranchingStory.Graph

variable {α : Type} [DecidableEq α] {g : Graph α} {a b start : α} {rest visited : List α}
  {s t : Search α}

/-! ## One step -/

theorem mem_unvisited : b ∈ g.unvisited visited a ↔ g.Edge a b ∧ b ∉ visited := by
  rw [unvisited, List.mem_filter, mem_ends, decide_eq_true_eq]

/-- What one step of a search can do. -/
inductive Search.Moves (g : Graph α) : Search α → Search α → Prop where
  | drop {a : α} {rest visited : List α} : a ∈ visited →
      Moves g ⟨a :: rest, visited⟩ ⟨rest, visited⟩
  | visit {a : α} {rest visited : List α} : a ∉ visited →
      Moves g ⟨a :: rest, visited⟩
        ⟨(g.unvisited (a :: visited) a).reverse ++ rest, a :: visited⟩

theorem Search.moves_iff : g.searchStep s = some t ↔ s.Moves g t := by
  constructor
  · intro h
    obtain ⟨stack, visited⟩ := s
    cases stack with
    | nil => cases h
    | cons a rest =>
        simp only [searchStep] at h
        split at h
        · obtain rfl := Option.some.inj h
          exact .drop ‹_›
        · obtain rfl := Option.some.inj h
          exact .visit ‹_›
  · intro h
    cases h with
    | drop hmem => simp only [searchStep, hmem, if_true]
    | visit hfresh => simp only [searchStep, hfresh, if_false]

/-- A search ends with nothing to visit. -/
theorem eq_nil_of_searchStep (h : g.searchStep s = none) : s.stack = [] := by
  obtain ⟨stack, visited⟩ := s
  cases stack with
  | nil => rfl
  | cons a rest =>
      simp only [searchStep] at h
      split at h <;> cases h

/-! ## Known vertices -/

/-- The vertex is visited or is still to be. -/
def Search.Knows (s : Search α) (b : α) : Prop := b ∈ s.stack ∨ b ∈ s.visited

omit [DecidableEq α] in
theorem Search.knows_drop_iff (h : a ∈ visited) :
    Search.Knows ⟨rest, visited⟩ b ↔ Search.Knows ⟨a :: rest, visited⟩ b := by
  refine ⟨.imp_left (.tail _), ?_⟩
  rintro (hb | hb)
  · rcases List.mem_cons.mp hb with rfl | hb
    · exact .inr h
    · exact .inl hb
  · exact .inr hb

/-- A visit makes known what the edges of the vertex lead to, and nothing else. -/
theorem Search.knows_visit_iff :
    Search.Knows ⟨(g.unvisited (a :: visited) a).reverse ++ rest, a :: visited⟩ b ↔
      Search.Knows ⟨a :: rest, visited⟩ b ∨ g.Edge a b := by
  by_cases hb : b ∈ a :: visited
  · refine iff_of_true (.inr hb) (.inl ?_)
    rcases List.mem_cons.mp hb with rfl | hb
    · exact .inl (.head _)
    · exact .inr hb
  · obtain ⟨hne, hfresh⟩ : b ≠ a ∧ b ∉ visited := by simpa using hb
    simp [Knows, mem_unvisited, hne, hfresh, or_comm]

theorem Search.Knows.of_moves (hb : s.Knows b) (h : s.Moves g t) : t.Knows b := by
  cases h with
  | drop hmem => exact (knows_drop_iff hmem).mpr hb
  | visit _ => exact knows_visit_iff.mpr (.inl hb)

/-! ## The end of a search -/

/-- The vertices that are not seen yet. -/
def unseen (g : Graph α) (seen : List α) : List α := g.vertices.filter (· ∉ seen)

theorem length_unseen_cons_lt {seen : List α} (hv : a ∈ g.vertices) (hs : a ∉ seen) :
    (g.unseen (a :: seen)).length < (g.unseen seen).length := by
  have hsub : g.unseen (a :: seen) = (g.unseen seen).filter (· ≠ a) := by
    simp only [unseen, List.filter_filter]
    refine List.filter_congr fun b _ => ?_
    simp [not_or]
  rw [hsub]
  exact List.length_filter_lt_length_iff_exists.mpr ⟨a, by simp [unseen, hv, hs], by simp⟩

/-- What each step diminishes. -/
def Search.measure (g : Graph α) (s : Search α) : Nat × Nat :=
  ((g.unseen s.visited).length, s.stack.length)

/-- What is true throughout a search from a given start. -/
structure Search.Sound (g : Graph α) (start : α) (s : Search α) : Prop where
  begun : start ∈ g.vertices → s.Knows start
  reached : ∀ b, s.Knows b → start ∈ g.vertices ∧ g.Path start b
  closed : ∀ b ∈ s.visited, ∀ c, g.Edge b c → s.Knows c

theorem Search.Sound.of_moves (hs : s.Sound g start) (h : s.Moves g t) : t.Sound g start := by
  have hbegun : start ∈ g.vertices → t.Knows start := fun hstart => (hs.begun hstart).of_moves h
  obtain ⟨_, hreached, hclosed⟩ := hs
  cases h with
  | drop hmem =>
      refine ⟨hbegun, fun b hb => hreached b ((knows_drop_iff hmem).mp hb), ?_⟩
      exact fun b hb c he => (knows_drop_iff hmem).mpr (hclosed b hb c he)
  | @visit a rest visited _ =>
      refine ⟨hbegun, fun b hb => ?_, fun b hb c he => knows_visit_iff.mpr ?_⟩
      · rcases knows_visit_iff.mp hb with hb | he
        · exact hreached b hb
        · obtain ⟨hstart, hpath⟩ := hreached a (.inl (.head _))
          exact ⟨hstart, hpath.step he⟩
      · rcases List.mem_cons.mp hb with rfl | hb
        · exact .inr he
        · exact .inl (hclosed b hb c he)

theorem Search.sound_searchFrom (g : Graph α) (start : α) :
    (g.searchFrom start).Sound g start where
  begun hstart := .inl (by simp [searchFrom, hstart])
  reached b hb := by
    obtain ⟨hstart, rfl⟩ : start ∈ g.vertices ∧ b = start := by
      simpa [Knows, searchFrom, apply_ite (b ∈ ·)] using hb
    exact ⟨hstart, .refl⟩
  closed := by simp [searchFrom]

theorem Search.Sound.measure_lt_of_moves (hs : s.Sound g start) (h : s.Moves g t) :
    Prod.Lex Nat.lt Nat.lt (t.measure g) (s.measure g) := by
  cases h with
  | drop _ => exact .right _ (by simp)
  | visit hfresh =>
      obtain ⟨hstart, hpath⟩ := hs.reached _ (.inl (.head _))
      exact .left _ _ (length_unseen_cons_lt (hpath.mem_vertices hstart) hfresh)

/-- Every search ends. -/
theorem exists_endsIn_searchStep (g : Graph α) (start : α) :
    ∃ s, Loop.EndsIn g.searchStep (g.searchFrom start) s := by
  refine Loop.exists_endsIn_of_preserves (Nat.lt_wfRel.wf.prod_lex Nat.lt_wfRel.wf)
    (Search.measure g) (fun s t hs hstep => ?_) (Search.sound_searchFrom g start)
  have hmoves := Search.moves_iff.mp hstep
  exact ⟨hs.of_moves hmoves, hs.measure_lt_of_moves hmoves⟩

theorem Search.sound_of_runs (h : Loop.Runs g.searchStep (g.searchFrom start) s) :
    s.Sound g start :=
  h.preserves (fun _ _ hs hstep => hs.of_moves (moves_iff.mp hstep)) (sound_searchFrom g start)

/-- A search that has ended has visited exactly what paths reach. -/
theorem mem_visited_iff_of_endsIn (h : Loop.EndsIn g.searchStep (g.searchFrom start) s) :
    b ∈ s.visited ↔ start ∈ g.vertices ∧ g.Path start b := by
  have hsound := Search.sound_of_runs h.runs
  have hknows : ∀ b, s.Knows b ↔ b ∈ s.visited := by
    simp [Search.Knows, eq_nil_of_searchStep h.last]
  constructor
  · exact fun hb => hsound.reached b (.inr hb)
  · rintro ⟨hstart, hpath⟩
    induction hpath with
    | refl => exact (hknows _).mp (hsound.begun hstart)
    | step _ he ih => exact (hknows _).mp (hsound.closed _ ih _ he)

/-- What a search lists is what it has visited when it ends. -/
theorem reachable_eq (h : Loop.EndsIn g.searchStep (g.searchFrom start) s) :
    g.reachable start = s.visited := by
  rw [reachable, Loop.run_eq_some_iff.mpr h, Option.map_some, Option.getD_some]

/-- The search finds exactly what paths reach. -/
theorem mem_reachable_iff : b ∈ g.reachable a ↔ a ∈ g.vertices ∧ g.Path a b := by
  obtain ⟨s, hend⟩ := exists_endsIn_searchStep g a
  rw [reachable_eq hend, mem_visited_iff_of_endsIn hend]

end BranchingStory.Graph
