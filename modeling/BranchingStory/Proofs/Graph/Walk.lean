import BranchingStory.Graph.Cycles
import BranchingStory.Proofs.Graph.Acyclic
import BranchingStory.Proofs.Lookup
import BranchingStory.Proofs.Loop

/-!
# Depth-first walks

`Walk.Moves` says once what one step of a depth-first walk can do, and everything about walks
follows from it.

A walk ends (`Graph.exists_endsIn_walkStep`): each step enters a new vertex, or else gives up a
start or the rest of an edge list.

The vertices that are entered and not finished are exactly those of the route, which runs along
edges (`Walk.Routed`).  So a back edge leads to the route, and what it closes is a cycle
(`Graph.isCycle_of_mem_cyclesFrom`).

An edge of a finished vertex leads to a vertex that was finished earlier, unless one of the edges
was a back edge and its cycle was reported (`Graph.Settled`).  A cycle of the graph cannot run
through earlier and earlier vertices forever.  So on every cycle some edge was a back edge
(`Graph.knotted_of_circular`).
-/

namespace BranchingStory.Graph

variable {α : Type} [DecidableEq α] {g : Graph α} {a b : α}

/-! ## One step -/

/-- What one step of a walk can do. -/
inductive Walk.Moves (g : Graph α) : Walk α → Walk α → Prop where
  | skip {a starts marks cycles} : marks.lookup a ≠ none →
      Moves g ⟨a :: starts, marks, [], cycles⟩ ⟨starts, marks, [], cycles⟩
  | start {a starts marks cycles} : marks.lookup a = none →
      Moves g ⟨a :: starts, marks, [], cycles⟩ ⟨starts, (a, .entered) :: marks, [(a, 0)], cycles⟩
  | leave {a position rest starts marks cycles} : (g.ends a)[position]? = none →
      Moves g ⟨starts, marks, (a, position) :: rest, cycles⟩
        ⟨starts, (a, .finished) :: marks, rest, cycles⟩
  | close {a position b rest starts marks cycles} : (g.ends a)[position]? = some b →
      marks.lookup b = some .entered →
      Moves g ⟨starts, marks, (a, position) :: rest, cycles⟩
        ⟨starts, marks, (a, position + 1) :: rest,
          cycles ++ [closeCycle (a :: rest.map Prod.fst).reverse b]⟩
  | pass {a position b rest starts marks cycles} : (g.ends a)[position]? = some b →
      marks.lookup b = some .finished →
      Moves g ⟨starts, marks, (a, position) :: rest, cycles⟩
        ⟨starts, marks, (a, position + 1) :: rest, cycles⟩
  | descend {a position b rest starts marks cycles} : (g.ends a)[position]? = some b →
      marks.lookup b = none →
      Moves g ⟨starts, marks, (a, position) :: rest, cycles⟩
        ⟨starts, (b, .entered) :: marks, (b, 0) :: (a, position + 1) :: rest, cycles⟩

theorem moves_of_walkStep {w w' : Walk α} (h : g.walkStep w = some w') : w.Moves g w' := by
  obtain ⟨starts, marks, path, cycles⟩ := w
  cases path with
  | nil =>
      cases starts with
      | nil => simp [walkStep] at h
      | cons a starts =>
          by_cases hmark : marks.lookup a = none
          · obtain rfl : _ = w' := by simpa [walkStep, Walk.mark?, hmark] using h
            exact .start hmark
          · have hsome := Option.isSome_iff_ne_none.mpr hmark
            obtain rfl : _ = w' := by simpa [walkStep, Walk.mark?, hsome] using h
            exact .skip hmark
  | cons frame rest =>
      obtain ⟨a, position⟩ := frame
      simp only [walkStep] at h
      split at h
      · rename_i hend
        obtain rfl := Option.some.inj h
        exact .leave hend
      · rename_i b hend
        simp only [Walk.follow, Walk.mark?, Option.some.injEq] at h
        split at h
        · subst h
          exact .close hend ‹_›
        · subst h
          exact .pass hend ‹_›
        · subst h
          exact .descend hend ‹_›

/-- A walk ends with an empty path, having started everywhere. -/
theorem eq_nil_of_walkStep {w : Walk α} (h : g.walkStep w = none) :
    w.path = [] ∧ w.starts = [] := by
  obtain ⟨starts, marks, path, cycles⟩ := w
  cases path with
  | nil =>
      cases starts with
      | nil => exact ⟨rfl, rfl⟩
      | cons a starts => simp [walkStep] at h
  | cons frame rest =>
      simp only [walkStep] at h
      split at h <;> simp at h

/-- The vertex is marked or is still to be started from. -/
def Walk.Covers (w : Walk α) (a : α) : Prop := a ∈ w.starts ∨ a ∈ w.marks.map Prod.fst

/-- No vertex is forgotten. -/
theorem Walk.Covers.of_moves {w w' : Walk α} (hw : w.Covers b) (h : w.Moves g w') :
    w'.Covers b := by
  cases h with
  | skip hmark =>
      rcases hw with hb | hb
      · rcases List.mem_cons.mp hb with rfl | hb
        · exact .inr (lookup_ne_none_iff.mp hmark)
        · exact .inl hb
      · exact .inr hb
  | start _ =>
      rcases hw with hb | hb
      · rcases List.mem_cons.mp hb with rfl | hb
        · exact .inr (.head _)
        · exact .inl hb
      · exact .inr (.tail _ hb)
  | leave _ => exact hw.imp_right (.tail _)
  | close _ _ => exact hw
  | pass _ _ => exact hw
  | descend _ _ => exact hw.imp_right (.tail _)

/-! ## The end of a walk -/

/-- What is left to do for the vertices of the path: to follow the rest of their edges and then to
leave them. -/
def Walk.effort (g : Graph α) : List (α × Nat) → Nat
  | [] => 0
  | (a, position) :: rest => (g.ends a).length - position + 1 + effort g rest

/-- What each step diminishes. -/
def Walk.measure (g : Graph α) (w : Walk α) : Nat × Nat × Nat :=
  ((g.unseen (w.marks.map Prod.fst)).length, w.starts.length, Walk.effort g w.path)

theorem length_unseen_cons_le (g : Graph α) (seen : List α) (a : α) :
    (g.unseen (a :: seen)).length ≤ (g.unseen seen).length := by
  refine (List.monotone_filter_right g.vertices fun b hb => ?_).length_le
  simp only [decide_eq_true_eq, List.mem_cons, not_or] at hb ⊢
  exact hb.2

/-- Following an edge takes effort from the path. -/
theorem effort_follow_lt {position : Nat} {rest : List (α × Nat)}
    (h : (g.ends a)[position]? = some b) :
    Walk.effort g ((a, position + 1) :: rest) < Walk.effort g ((a, position) :: rest) := by
  have hlt := (List.getElem?_eq_some_iff.mp h).1
  simp only [Walk.effort]
  omega

theorem measure_lt_of_moves {w w' : Walk α} (h : w.Moves g w') :
    Prod.Lex Nat.lt (Prod.Lex Nat.lt Nat.lt) (w'.measure g) (w.measure g) := by
  cases h with
  | skip _ => exact .right _ (.left _ _ (by simp))
  | start _ => exact .right' _ (length_unseen_cons_le ..) (.left _ _ (by simp))
  | leave _ =>
      refine .right' _ (length_unseen_cons_le ..) (.right _ ?_)
      simp [Walk.effort]
  | close hend _ => exact .right _ (.right _ (effort_follow_lt hend))
  | pass hend _ => exact .right _ (.right _ (effort_follow_lt hend))
  | descend hend hmark =>
      have hedge : g.Edge _ _ := mem_ends.mp (List.mem_of_getElem? hend)
      exact .left _ _ (length_unseen_cons_lt hedge.2 fun hmem => lookup_ne_none_iff.mpr hmem hmark)

/-- Every walk ends, from whatever state. -/
theorem exists_endsIn_walkStep (g : Graph α) (w : Walk α) : ∃ w', Loop.EndsIn g.walkStep w w' :=
  Loop.exists_endsIn (Nat.lt_wfRel.wf.prod_lex (Nat.lt_wfRel.wf.prod_lex Nat.lt_wfRel.wf))
    (Walk.measure g) (fun _ _ h => measure_lt_of_moves (moves_of_walkStep h)) w

/-! ## The route -/

/-- The entered vertices are those of the path, which repeats none of them and runs along edges. -/
structure Walk.Routed (g : Graph α) (w : Walk α) : Prop where
  entered_iff : ∀ a, w.mark? a = some .entered ↔ a ∈ w.path.map Prod.fst
  nodup : (w.path.map Prod.fst).Nodup
  chain : (w.path.map Prod.fst).IsChain fun b a => g.Edge a b

theorem Walk.Routed.of_moves {w w' : Walk α} (hw : w.Routed g) (h : w.Moves g w') :
    w'.Routed g := by
  obtain ⟨hentered, hnodup, hchain⟩ := hw
  cases h with
  | skip _ => exact ⟨hentered, hnodup, hchain⟩
  | start _ =>
      refine ⟨?_, by simp, .singleton _⟩
      intro b
      have hb := hentered b
      simp only [mark?, lookup_cons_eq_ite] at hb ⊢
      split <;> simp_all
  | leave _ =>
      obtain ⟨hfresh, hnodup⟩ := List.nodup_cons.mp hnodup
      refine ⟨?_, hnodup, hchain.tail⟩
      intro b
      have hb := hentered b
      simp only [mark?, lookup_cons_eq_ite] at hb ⊢
      split <;> simp_all
  | close _ _ => exact ⟨hentered, hnodup, hchain⟩
  | pass _ _ => exact ⟨hentered, hnodup, hchain⟩
  | @descend a position b rest starts marks cycles hend hmark =>
      have hfresh : b ∉ a :: rest.map Prod.fst := by
        intro hmem
        have := (hentered b).mpr hmem
        simp [mark?, hmark] at this
      refine ⟨?_, List.nodup_cons.mpr ⟨hfresh, hnodup⟩, ?_⟩
      · intro c
        have hc := hentered c
        simp only [mark?, lookup_cons_eq_ite] at hc ⊢
        split <;> simp_all
      · exact List.isChain_cons_cons.mpr ⟨mem_ends.mp (List.mem_of_getElem? hend), hchain⟩

/-- An edge back to the route closes the part of the route that begins there. -/
theorem closeCycle_eq {route : List α} (hb : b ∈ route) :
    ∃ front back, route = front ++ b :: back ∧ Walk.closeCycle route b = b :: back ++ [b] := by
  obtain ⟨front, back, rfl, hfresh⟩ := List.eq_append_cons_of_mem hb
  have hfound : (front ++ b :: back).idxOf? b = some front.length := by
    refine List.idxOf?_eq_some_iff.mpr ⟨by simp, by simp, fun i hi heq => hfresh ?_⟩
    rw [List.getElem_append_left hi] at heq
    exact heq ▸ List.getElem_mem hi
  refine ⟨front, back, rfl, ?_⟩
  rw [Walk.closeCycle, hfound, Option.getD_some, List.drop_left]

/-- What a back edge closes is a cycle, and the vertex that the edge leaves lies on it. -/
theorem Walk.Routed.isCycle_closeCycle {position : Nat} {rest : List (α × Nat)} {starts : List α}
    {marks : List (α × Mark)} {cycles : List (List α)}
    (hw : Walk.Routed g ⟨starts, marks, (a, position) :: rest, cycles⟩) (he : g.Edge a b)
    (hmark : marks.lookup b = some .entered) :
    g.IsCycle (closeCycle (a :: rest.map Prod.fst).reverse b) ∧
      a ∈ closeCycle (a :: rest.map Prod.fst).reverse b := by
  have hmem : b ∈ (a :: rest.map Prod.fst).reverse :=
    List.mem_reverse.mpr ((hw.entered_iff b).mp hmark)
  have hchain : (a :: rest.map Prod.fst).reverse.IsChain g.Edge := List.isChain_reverse.mpr hw.chain
  have hnodup : (a :: rest.map Prod.fst).reverse.Nodup := List.nodup_reverse.mpr hw.nodup
  have hlast : (a :: rest.map Prod.fst).reverse.getLast? = some a := by simp
  obtain ⟨front, back, hroute, hclose⟩ := closeCycle_eq hmem
  rw [hclose]
  rw [hroute] at hchain hnodup hlast
  have hlast : (b :: back).getLast? = some a := by
    rwa [List.getLast?_append_of_ne_nil _ (List.cons_ne_nil b back)] at hlast
  refine ⟨isCycle_concat hchain.right_of_append (List.nodup_append.mp hnodup).2.1 hlast he, ?_⟩
  exact List.mem_append_left _ (List.mem_of_getLast? hlast)

/-! ## Explored vertices -/

/-- Along a path, the current vertex first and `above` before it: what an edge that is followed
leads to is finished or stands further up on the path, unless the edge was a back edge. -/
inductive Followed (g : Graph α) (finished : List α) (cycles : List (List α)) :
    List α → List (α × Nat) → Prop where
  | nil {above : List α} : Followed g finished cycles above []
  | cons {above : List α} {a : α} {position : Nat} {rest : List (α × Nat)} :
      (∀ b ∈ (g.ends a).take position, b ∈ finished ∨ g.Knotted cycles a ∨ b ∈ above) →
      Followed g finished cycles (a :: above) rest →
      Followed g finished cycles above ((a, position) :: rest)

theorem Followed.mono {finished finished' : List α} {cycles cycles' : List (List α)}
    {above above' : List α} {path : List (α × Nat)} (h : g.Followed finished cycles above path)
    (hfinished : finished ⊆ finished') (hcycles : cycles ⊆ cycles')
    (habove : ∀ b ∈ above, b ∈ finished' ∨ b ∈ above') :
    g.Followed finished' cycles' above' path := by
  induction h generalizing above' with
  | nil => exact .nil
  | @cons above a position rest hfollowed _ ih =>
      refine .cons ?_ (ih ?_)
      · intro b hb
        rcases hfollowed b hb with hb | hknotted | hb
        · exact .inl (hfinished hb)
        · exact .inr (.inl (hknotted.mono hcycles))
        · exact (habove b hb).imp_right .inr
      · intro b hb
        rcases List.mem_cons.mp hb with rfl | hb
        · exact .inr (.head _)
        · exact (habove b hb).imp_right (.tail _)

/-- One more edge of the current vertex is followed. -/
theorem Followed.advance {finished above above' : List α} {cycles cycles' : List (List α)}
    {position : Nat} {rest : List (α × Nat)}
    (h : g.Followed finished cycles above ((a, position) :: rest))
    (hend : (g.ends a)[position]? = some b) (hcycles : cycles ⊆ cycles') (habove : above ⊆ above')
    (hb : b ∈ finished ∨ g.Knotted cycles' a ∨ b ∈ above') :
    g.Followed finished cycles' above' ((a, position + 1) :: rest) := by
  cases h with
  | cons hfollowed hrest =>
      refine .cons (fun c hc => ?_) (hrest.mono (List.Subset.refl _) hcycles fun c hc =>
        .inr (List.cons_subset_cons a habove hc))
      rw [List.take_add_one, hend] at hc
      rcases List.mem_append.mp hc with hc | hc
      · exact (hfollowed c hc).imp_right (.imp (·.mono hcycles) (habove ·))
      · obtain rfl : c = b := by simpa using hc
        exact hb

/-! ## Walks -/

/-- The finished vertices, the latest first. -/
def Walk.finished (w : Walk α) : List α := (w.marks.filter (·.2 = .finished)).map Prod.fst

theorem Walk.mem_finished {w : Walk α} (h : w.mark? a = some .finished) : a ∈ w.finished :=
  List.mem_map.mpr ⟨_, List.mem_filter.mpr ⟨mem_of_lookup h, by simp⟩, rfl⟩

/-- What is true throughout a walk from the given starts. -/
structure Walk.Sound (g : Graph α) (starts : List α) (w : Walk α) : Prop where
  routed : w.Routed g
  cycles : ∀ cycle ∈ w.cycles, g.IsCycle cycle
  settled : g.Settled w.cycles w.finished
  followed : g.Followed w.finished w.cycles [] w.path
  covered : ∀ a ∈ starts, w.Covers a

theorem Walk.Sound.of_moves {starts : List α} {w w' : Walk α} (hw : w.Sound g starts)
    (h : w.Moves g w') : w'.Sound g starts := by
  have hrouted' := hw.routed.of_moves h
  have hcovered : ∀ a ∈ starts, w'.Covers a := fun a ha => (hw.covered a ha).of_moves h
  obtain ⟨hrouted, hcycles, hsettled, hfollowed, _⟩ := hw
  cases h with
  | skip _ => exact ⟨hrouted', hcycles, hsettled, hfollowed, hcovered⟩
  | start _ => exact ⟨hrouted', hcycles, hsettled, .cons (by simp) .nil, hcovered⟩
  | @leave a position rest starts marks cycles hend =>
      cases hfollowed with
      | cons hends hrest =>
          refine ⟨hrouted', hcycles, ?_, ?_, hcovered⟩
          · apply hsettled.cons
            intro b he
            rw [List.take_of_length_le (List.getElem?_eq_none_iff.mp hend)] at hends
            simpa using hends b (mem_ends.mpr he)
          · refine hrest.mono (List.subset_cons_self a _) (List.Subset.refl _) fun b hb => .inl ?_
            exact List.mem_singleton.mp hb ▸ .head _
  | @close a position b rest starts marks cycles hend hmark =>
      obtain ⟨hcycle, ha⟩ :=
        hrouted.isCycle_closeCycle (mem_ends.mp (List.mem_of_getElem? hend)) hmark
      have hgrow := List.subset_append_left cycles [closeCycle (a :: rest.map Prod.fst).reverse b]
      refine ⟨hrouted', ?_, hsettled.mono hgrow, ?_, hcovered⟩
      · intro cycle hmem
        rcases List.mem_append.mp hmem with hmem | hmem
        · exact hcycles cycle hmem
        · exact List.mem_singleton.mp hmem ▸ hcycle
      · refine hfollowed.advance hend hgrow (List.Subset.refl _) (.inr (.inl ?_))
        exact hcycle.knotted (List.mem_append_right _ (.head _)) ha
  | pass hend hmark =>
      refine ⟨hrouted', hcycles, hsettled, ?_, hcovered⟩
      exact hfollowed.advance hend (List.Subset.refl _) (List.Subset.refl _)
        (.inl (mem_finished hmark))
  | descend hend hmark =>
      refine ⟨hrouted', hcycles, hsettled, .cons (by simp) ?_, hcovered⟩
      exact hfollowed.advance hend (List.Subset.refl _) (List.nil_subset _) (.inr (.inr (.head _)))

theorem Walk.sound_of_runs {starts : List α} {w : Walk α}
    (h : Loop.Runs g.walkStep { starts := starts } w) : w.Sound g starts := by
  refine h.preserves (fun _ _ hw hstep => hw.of_moves (moves_of_walkStep hstep)) ?_
  exact ⟨⟨by simp [mark?], List.nodup_nil, .nil⟩, by simp, .nil, .nil, fun a ha => .inl ha⟩

/-- A walk ends with the cycles that `cyclesFrom` gives. -/
theorem exists_endsIn_cyclesFrom (g : Graph α) (starts : List α) :
    ∃ w, Loop.EndsIn g.walkStep { starts := starts } w ∧ w.cycles = g.cyclesFrom starts := by
  obtain ⟨w, h⟩ := exists_endsIn_walkStep g { starts := starts }
  refine ⟨w, h, ?_⟩
  rw [cyclesFrom, walkFrom, Loop.run_eq_some_iff.mpr h, Option.map_some, Option.getD_some]

/-- What the walk reports are cycles. -/
theorem isCycle_of_mem_cyclesFrom {starts cycle : List α} (h : cycle ∈ g.cyclesFrom starts) :
    g.IsCycle cycle := by
  obtain ⟨w, hend, hcycles⟩ := exists_endsIn_cyclesFrom g starts
  exact (Walk.sound_of_runs hend.runs).cycles cycle (hcycles ▸ h)

/-- Every circular vertex that the walk may start from is knotted by a reported cycle. -/
theorem knotted_of_circular {starts : List α} (ha : a ∈ starts) (h : g.Circular a) :
    g.Knotted (g.cyclesFrom starts) a := by
  obtain ⟨w, hend, hcycles⟩ := exists_endsIn_cyclesFrom g starts
  obtain ⟨hpath, hstarts⟩ := eq_nil_of_walkStep hend.last
  have hsound := Walk.sound_of_runs hend.runs
  -- At the end nothing is on the path, so `a` is not only entered but finished.
  have hmark : w.mark? a ≠ none := by
    have hcovers := hsound.covered a ha
    rw [Walk.Covers, hstarts] at hcovers
    exact lookup_ne_none_iff.mpr (hcovers.resolve_left List.not_mem_nil)
  have hfinished : a ∈ w.finished := by
    have hentered := hsound.routed.entered_iff a
    rw [hpath] at hentered
    cases hlookup : w.mark? a with
    | none => exact absurd hlookup hmark
    | some mark =>
        cases mark with
        | entered => simp [hlookup] at hentered
        | finished => exact Walk.mem_finished hlookup
  rw [← hcycles]
  exact hsound.settled.knotted hfinished h

/-- A walk from all vertices reports a cycle exactly if there is one. -/
theorem cyclesFrom_eq_nil_iff {starts : List α} (hall : g.vertices ⊆ starts) :
    g.cyclesFrom starts = [] ↔ ∀ a, ¬ g.Circular a := by
  constructor
  · intro hnil a hcircular
    obtain ⟨cycle, hmem, _⟩ := knotted_of_circular (hall hcircular.mem_vertices) hcircular
    simp [hnil] at hmem
  · intro h
    rw [List.eq_nil_iff_forall_not_mem]
    intro cycle hmem
    obtain ⟨a, hcircular⟩ := (isCycle_of_mem_cyclesFrom hmem).exists_circular
    exact h a hcircular

end BranchingStory.Graph
