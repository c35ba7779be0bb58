import BranchingStory.Proofs.Chapter.Layout
import BranchingStory.Proofs.Chapter.Routes

/-!
# Compiled chapters

What it takes for a draft to compile, and what the chapter then looks like.
`ChapterDraft.compile_eq_ok_iff` opens the compiler once: a draft compiles exactly if it has a
layout, nothing is wrong with its outline or any placed node, and no name repeats.  Everything
else here follows from that equation.  A compiled chapter has one node for each placement,
under the name of the placement, the names are distinct, and no node offers an empty choice.
-/

namespace BranchingStory

namespace ChapterDraft

variable {e : Edition} {c : ChapterDraft} {l : Layout} {ch : Chapter}

theorem filled_iff : (c.prologue.isEmpty || c.tracks.any (·.nodes.isEmpty)) = false ↔
    c.prologue ≠ [] ∧ ∀ t ∈ c.tracks, t.nodes ≠ [] := by
  simp

/-- A draft has a layout if it has an opening, an investigation, an ending and a node on
every track. -/
theorem layout?_eq_some_iff :
    c.layout? = some l ↔ ∃ investigation ending, c.investigation = some investigation ∧
      c.ending = some ending ∧ c.prologue ≠ [] ∧ (∀ t ∈ c.tracks, t.nodes ≠ []) ∧
      l = { prologue := .ofDrafts c.number .prologue c.prologue
            tracks := c.tracks.map fun t => (t, .ofDrafts c.number (.track t.pov) t.nodes)
            investigation :=
              (investigation.id.getD (Slot.investigation.nodeName c.number), investigation)
            ending := (ending.id.getD (Slot.ending.nodeName c.number), ending) } := by
  constructor
  · intro h
    rw [layout?] at h
    split at h
    · rename_i investigation ending hi he
      split at h
      · cases h
      · rename_i hempty
        obtain ⟨hprologue, htracks⟩ := filled_iff.mp (Bool.not_eq_true _ ▸ hempty)
        exact ⟨investigation, ending, hi, he, hprologue, htracks, (Option.some.inj h).symm⟩
    · cases h
  · rintro ⟨investigation, ending, hi, he, hprologue, htracks, rfl⟩
    rw [layout?, hi, he]
    have hempty := filled_iff.mpr ⟨hprologue, htracks⟩
    simp only [hempty, Bool.false_eq_true, if_false]

theorem exists_layout (hprologue : c.prologue ≠ []) (htracks : ∀ t ∈ c.tracks, t.nodes ≠ [])
    (hinvestigation : c.investigation ≠ none) (hending : c.ending ≠ none) :
    ∃ l, c.layout? = some l := by
  obtain ⟨_, hi⟩ := Option.ne_none_iff_exists'.mp hinvestigation
  obtain ⟨_, he⟩ := Option.ne_none_iff_exists'.mp hending
  exact ⟨_, layout?_eq_some_iff.mpr ⟨_, _, hi, he, hprologue, htracks, rfl⟩⟩

theorem ofDrafts_ne_nil {number : Nat} {slot : Nat → Slot} {nodes : List NodeDraft}
    (h : nodes ≠ []) : Run.ofDrafts number slot nodes ≠ [] := by
  simpa [Run.ofDrafts] using h

theorem map_snd_ofDrafts {number : Nat} {slot : Nat → Slot} {nodes : List NodeDraft} :
    (Run.ofDrafts number slot nodes).map Prod.snd = nodes := by
  refine List.ext_getElem? fun i => ?_
  rw [Run.ofDrafts, List.getElem?_map, List.getElem?_mapIdx]
  cases nodes[i]? <;> rfl

theorem complete_of_layout? (h : c.layout? = some l) : l.Complete := by
  obtain ⟨_, _, _, _, hprologue, htracks, rfl⟩ := layout?_eq_some_iff.mp h
  refine ⟨ofDrafts_ne_nil hprologue, fun t ht => ?_⟩
  obtain ⟨d, hd, rfl⟩ := List.mem_map.mp ht
  exact ofDrafts_ne_nil (htracks d hd)

/-- A draft compiles exactly if it has a layout, no problem and no repeated name, and then to
what the layout describes. -/
theorem compile_eq_ok_iff :
    c.compile e = .ok ch ↔ ∃ l, c.layout? = some l ∧ c.outlineProblems e = [] ∧
      l.Clean e c.number ∧ (c.assemble e l).ids.Nodup ∧ ch = c.assemble e l := by
  rw [compile]
  cases hlayout : c.layout? with
  | none => simp
  | some l =>
      simp only [Option.some.injEq, exists_eq_left']
      cases hproblems : c.outlineProblems e
          ++ (l.place e c.number).flatMap (Placement.problems e c.number) with
      | cons d rest =>
          refine iff_of_false (by simp) ?_
          rintro ⟨houtline, hplaced, _⟩
          rw [houtline, List.flatMap_eq_nil_iff.mpr hplaced] at hproblems
          simp at hproblems
      | nil =>
          obtain ⟨houtline, hplaced⟩ := List.append_eq_nil_iff.mp hproblems
          rw [List.flatMap_eq_nil_iff] at hplaced
          have hids : (c.assemble e l).repeatedName? = none ↔ (c.assemble e l).ids.Nodup := by
            rw [Chapter.repeatedName?, Option.map_eq_none_iff, firstRepeat?_eq_none_iff]
          cases hrepeat : (c.assemble e l).repeatedName? with
          | none =>
              constructor
              · intro h
                exact ⟨houtline, hplaced, hids.mp hrepeat, (Except.ok.inj h).symm⟩
              · rintro ⟨_, _, _, rfl⟩
                rfl
          | some name =>
              refine iff_of_false (by simp) ?_
              rintro ⟨_, _, hnodup, _⟩
              rw [hids.mpr hnodup] at hrepeat
              simp at hrepeat

/-- The nodes of a layout are those of its placements. -/
theorem mem_nodes_assemble_iff {n : Node} :
    n ∈ (c.assemble e l).nodes ↔ ∃ p ∈ l.place e c.number, p.node? = some n :=
  List.mem_filterMap

/-- Without problems every placement has a node of its name. -/
theorem ids_assemble (h : l.Clean e c.number) : (c.assemble e l).ids = l.names := by
  rw [← Layout.map_id_place e c.number]
  exact Placement.map_id_filterMap_node? h

/-! ## Compiled chapters -/

theorem number_of_compile (h : c.compile e = .ok ch) : ch.number = c.number := by
  obtain ⟨_, _, _, _, _, rfl⟩ := compile_eq_ok_iff.mp h
  rfl

theorem title_of_compile (h : c.compile e = .ok ch) : ch.title = c.title := by
  obtain ⟨_, _, _, _, _, rfl⟩ := compile_eq_ok_iff.mp h
  rfl

theorem entry_of_compile (h : c.compile e = .ok ch) : ch.entry = entryName c.number := by
  obtain ⟨_, _, _, _, _, rfl⟩ := compile_eq_ok_iff.mp h
  rfl

theorem nodup_ids_of_compile (h : c.compile e = .ok ch) : ch.ids.Nodup := by
  obtain ⟨_, _, _, _, hids, rfl⟩ := compile_eq_ok_iff.mp h
  exact hids

/-- No choice in a compiled chapter is empty. -/
theorem next_ne_choice_nil_of_compile (h : c.compile e = .ok ch) {n : Node} (hn : n ∈ ch.nodes) :
    n.next ≠ .choice [] := by
  obtain ⟨l, hlayout, _, _, _, rfl⟩ := compile_eq_ok_iff.mp h
  obtain ⟨p, hp, hnode⟩ := mem_nodes_assemble_iff.mp hn
  rw [Placement.next_of_node? hnode]
  exact Placement.link_ne_choice_nil
    (Layout.defaultLink_ne_choice_nil (complete_of_layout? hlayout) hp)

/-- If only one placement stands where a kind is allowed, and nothing else is allowed there,
then its node is the one of that kind. -/
theorem node?_eq_some_iff_of_part (h : l.Clean e c.number) {p : Placement} {kind : NodeKind}
    {n : Node} (hp : p ∈ l.place e c.number) (hkind : ∀ k, p.part.allows k = true → k = kind)
    (honly : ∀ q ∈ l.place e c.number, q.part.allows kind = true → q = p) :
    p.node? = some n ↔ n ∈ (c.assemble e l).nodes ∧ n.kind = kind := by
  have hallows : ∀ q ∈ l.place e c.number, ∀ m, q.node? = some m →
      q.part.allows m.kind = true := by
    intro q hq m hm
    obtain ⟨m', hm', hallows⟩ := Placement.exists_node_of_problems_eq_nil (h q hq)
    obtain rfl : m' = m := Option.some.inj (hm'.symm.trans hm)
    exact hallows
  constructor
  · intro hnode
    exact ⟨mem_nodes_assemble_iff.mpr ⟨p, hp, hnode⟩, hkind _ (hallows p hp n hnode)⟩
  · rintro ⟨hn, rfl⟩
    obtain ⟨q, hq, hnode⟩ := mem_nodes_assemble_iff.mp hn
    exact honly q hq (hallows q hq n hnode) ▸ hnode

theorem node?_placeInvestigation_iff (h : l.Clean e c.number) {n : Node} :
    l.placeInvestigation.node? = some n ↔
      n ∈ (c.assemble e l).nodes ∧ n.kind = .investigation := by
  refine node?_eq_some_iff_of_part h (Layout.mem_place_iff.mpr (.inr (.inl rfl))) ?_ ?_
  · simp [Layout.placeInvestigation, Part.allows]
  · intro q hq hallows
    exact Layout.eq_placeInvestigation hq (Part.allows_investigation_iff.mp hallows)

theorem node?_placeEnding_iff (h : l.Clean e c.number) {n : Node} :
    (l.placeEnding e c.number).node? = some n ↔
      n ∈ (c.assemble e l).nodes ∧ n.kind = .chapterEnd := by
  refine node?_eq_some_iff_of_part h (Layout.mem_place_iff.mpr (.inr (.inr rfl))) ?_ ?_
  · simp [Layout.placeEnding, Part.allows]
  · intro q hq hallows
    exact Layout.eq_placeEnding hq (Part.allows_chapterEnd_iff.mp hallows)

theorem existsUnique_node? {p : Placement} (h : p.problems e c.number = []) :
    ∃! n, p.node? = some n := by
  obtain ⟨n, hn, _⟩ := Placement.exists_node_of_problems_eq_nil h
  exact ⟨n, hn, fun m hm => Option.some.inj (hm.symm.trans hn)⟩

/-- A compiled chapter has one investigation. -/
theorem existsUnique_investigation (h : c.compile e = .ok ch) :
    ∃! n, n ∈ ch.nodes ∧ n.kind = .investigation := by
  obtain ⟨l, _, _, hproblems, _, rfl⟩ := compile_eq_ok_iff.mp h
  simp only [← node?_placeInvestigation_iff hproblems]
  exact existsUnique_node? (hproblems _ (Layout.mem_place_iff.mpr (.inr (.inl rfl))))

/-- A compiled chapter has one end, the node of the ending. -/
theorem existsUnique_chapterEnd (h : c.compile e = .ok ch) :
    ∃! n, n ∈ ch.nodes ∧ n.kind = .chapterEnd := by
  obtain ⟨l, _, _, hproblems, _, rfl⟩ := compile_eq_ok_iff.mp h
  simp only [← node?_placeEnding_iff hproblems]
  exact existsUnique_node? (hproblems _ (Layout.mem_place_iff.mpr (.inr (.inr rfl))))

end ChapterDraft

end BranchingStory
