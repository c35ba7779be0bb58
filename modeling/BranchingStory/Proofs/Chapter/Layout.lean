import BranchingStory.Compile.Chapter

/-!
# Placed nodes and layouts

Facts about single placements and about how a layout places its nodes: which part each
placement stands in, under which name, and with which default link.  Only the placement of
the ending depends on the last chapter of the edition.
-/

namespace BranchingStory

/-! ## Placed nodes -/

theorem Part.allows_investigation_iff {part : Part} :
    part.allows .investigation = true ↔ part = .investigation := by
  cases part <;> simp [Part.allows]

theorem Part.allows_chapterEnd_iff {part : Part} :
    part.allows .chapterEnd = true ↔ part = .ending := by
  cases part <;> simp [Part.allows]

namespace Placement

variable {e : Edition} {number : Nat} {p : Placement} {n : Node}

/-- The draft with its name. -/
def named (p : Placement) : String × NodeDraft := (p.id, p.draft)

theorem kindProblems_eq_nil_iff : p.kindProblems number = [] ↔
    ∃ kind, p.kind? = some kind ∧ p.part.allows kind = true := by
  rw [kindProblems, kind?]
  cases p.draft.kind with
  | none => simp
  | some name =>
      cases hfound : NodeKind.ofName? name with
      | none => simp [hfound]
      | some kind => simp [hfound]

theorem kind?_of_problems_eq_nil (h : p.problems e number = []) :
    ∃ kind, p.kind? = some kind ∧ p.part.allows kind = true := by
  simp only [problems, List.append_eq_nil_iff] at h
  exact kindProblems_eq_nil_iff.mp h.1.1.1

/-- The node of a placement keeps its name and its link. -/
theorem node?_eq_some_iff :
    p.node? = some n ↔ ∃ kind, p.kind? = some kind ∧
      n = ⟨p.id, kind, p.draft.speaker, p.draft.text, p.link, p.pov, .ofList p.draft.tags⟩ := by
  rw [node?, Option.map_eq_some_iff]
  exact exists_congr fun _ => and_congr_right fun _ => eq_comm

theorem id_of_node? (h : p.node? = some n) : n.id = p.id := by
  obtain ⟨_, _, rfl⟩ := node?_eq_some_iff.mp h
  rfl

theorem next_of_node? (h : p.node? = some n) : n.next = p.link := by
  obtain ⟨_, _, rfl⟩ := node?_eq_some_iff.mp h
  rfl

/-- A node without problems is not left out, and its part allows its kind. -/
theorem exists_node_of_problems_eq_nil (h : p.problems e number = []) :
    ∃ n, p.node? = some n ∧ p.part.allows n.kind = true := by
  obtain ⟨kind, hkind, hallows⟩ := kind?_of_problems_eq_nil h
  exact ⟨_, node?_eq_some_iff.mpr ⟨kind, hkind, rfl⟩, hallows⟩

theorem map_id_filterMap_node? {ps : List Placement} (h : ∀ p ∈ ps, p.problems e number = []) :
    (ps.filterMap node?).map Node.id = ps.map Placement.id := by
  induction ps with
  | nil => rfl
  | cons p rest ih =>
      obtain ⟨hp, hrest⟩ := List.forall_mem_cons.mp h
      obtain ⟨n, hn, _⟩ := exists_node_of_problems_eq_nil hp
      rw [List.filterMap_cons_some hn, List.map_cons, List.map_cons, id_of_node? hn, ih hrest]

/-- An author cannot write an empty choice, so it could only come from the default link. -/
theorem link_ne_choice_nil (h : p.defaultLink ≠ .choice []) : p.link ≠ .choice [] := by
  rw [link]
  cases hoptions : p.draft.options with
  | nil =>
      cases hnext : p.draft.next with
      | none => simpa using h
      | some target => cases target <;> simp [LinkDraft.toLink]
  | cons o rest => simp

theorem link_eq_defaultLink (hoptions : p.draft.options = []) (hnext : p.draft.next = none) :
    p.link = p.defaultLink := by
  rw [link, hoptions, hnext]
  rfl

/-- Only a choice looks at its default link. -/
theorem problems_congr_defaultLink (hkind : p.kind? ≠ some .choice) (after : Link) :
    { p with defaultLink := after }.problems e number = p.problems e number := by
  have hlink : { p with defaultLink := after }.linkProblems e number = p.linkProblems e number := by
    have hsame : { p with defaultLink := after }.kind? = p.kind? := rfl
    rw [linkProblems, linkProblems, hsame]
    cases hfound : p.kind? with
    | none => rfl
    | some kind =>
        cases kind with
        | choice => exact absurd hfound hkind
        | dialogue | investigation | chapterEnd => rfl
  exact congrArg (_ ++ ·) hlink

end Placement

/-! ## Layouts -/

namespace Layout

variable {e : Edition} {number : Nat} {l : Layout} {p : Placement} {part : Part}
  {pov : Perspective} {after : Link} {run : Run} {branches : Bool}
  {tracks : List (TrackDraft × Run)}

/-- A layout has an opening, and a node on every track. -/
structure Complete (l : Layout) : Prop where
  prologue : l.prologue ≠ []
  tracks : ∀ t ∈ l.tracks, t.2 ≠ []

/-- The nodes before the investigation. -/
def placeBefore (e : Edition) (l : Layout) : List Placement :=
  placeRun .prologue .shared (l.linkFromPrologue e) l.prologue
    ++ placeTracks l.branches (.node l.investigation.1) l.tracks

/-- The investigation in its place. -/
def placeInvestigation (l : Layout) : Placement :=
  ⟨l.investigation.2, l.investigation.1, .investigation, .shared, .node l.ending.1⟩

/-- The ending in its place. -/
def placeEnding (e : Edition) (number : Nat) (l : Layout) : Placement :=
  ⟨l.ending.2, l.ending.1, .ending, .shared, e.linkAfter number⟩

theorem place_eq : l.place e number =
    l.placeBefore e ++ [l.placeInvestigation, l.placeEnding e number] := rfl

theorem mem_place_iff : p ∈ l.place e number ↔
    p ∈ l.placeBefore e ∨ p = l.placeInvestigation ∨ p = l.placeEnding e number := by
  simp [place_eq]

/-- No placed node has a problem. -/
def Clean (e : Edition) (number : Nat) (l : Layout) : Prop :=
  ∀ p ∈ l.place e number, p.problems e number = []

/-! ### Names and drafts -/

theorem map_named_placeRun : (placeRun part pov after run).map Placement.named = run := by
  induction run with
  | nil => rfl
  | cons first rest ih =>
      rw [placeRun, List.map_cons, ih]
      rfl

theorem map_named_placeTracks :
    (placeTracks branches after tracks).map Placement.named = tracks.flatMap Prod.snd := by
  induction tracks with
  | nil => rfl
  | cons t rest ih =>
      rw [placeTracks, List.map_append, map_named_placeRun, ih, List.flatMap_cons]

/-- The whole chapter in the order of reading. -/
def asRun (l : Layout) : Run :=
  l.prologue ++ l.tracks.flatMap Prod.snd ++ [l.investigation, l.ending]

/-- Placing a layout gives every node its place, and changes neither name nor draft. -/
theorem map_named_place (e : Edition) (number : Nat) (l : Layout) :
    (l.place e number).map Placement.named = l.asRun := by
  rw [place_eq, List.map_append, placeBefore, List.map_append, map_named_placeRun,
    map_named_placeTracks]
  rfl

/-- The names of the nodes in the order of reading. -/
def names (l : Layout) : List String := l.asRun.map Prod.fst

theorem map_id_place (e : Edition) (number : Nat) (l : Layout) :
    (l.place e number).map Placement.id = l.names := by
  rw [names, ← map_named_place e number, List.map_map]
  rfl

theorem forall_mem_names_iff {R : String → Prop} : (∀ id ∈ l.names, R id) ↔
    (∀ n ∈ l.prologue, R n.1) ∧ (∀ t ∈ l.tracks, ∀ n ∈ t.2, R n.1) ∧
      R l.investigation.1 ∧ R l.ending.1 := by
  simp only [names, asRun, List.forall_mem_map, List.forall_mem_append, List.forall_mem_flatMap,
    List.forall_mem_cons, List.not_mem_nil, false_implies, implies_true, and_true, and_assoc]

/-! ### Parts -/

theorem part_of_mem_placeRun (hp : p ∈ placeRun part pov after run) : p.part = part := by
  induction run with
  | nil => simp [placeRun] at hp
  | cons first rest ih =>
      rcases List.mem_cons.mp hp with rfl | hp
      · rfl
      · exact ih hp

theorem part_of_mem_placeTracks (hp : p ∈ placeTracks branches after tracks) :
    p.part = .track := by
  induction tracks with
  | nil => simp [placeTracks] at hp
  | cons t rest ih =>
      rcases List.mem_append.mp hp with hp | hp
      · exact part_of_mem_placeRun hp
      · exact ih hp

theorem part_of_mem_placeBefore (hp : p ∈ l.placeBefore e) :
    p.part = .prologue ∨ p.part = .track := by
  rcases List.mem_append.mp hp with hp | hp
  · exact .inl (part_of_mem_placeRun hp)
  · exact .inr (part_of_mem_placeTracks hp)

theorem eq_placeInvestigation (hp : p ∈ l.place e number) (h : p.part = .investigation) :
    p = l.placeInvestigation := by
  rcases mem_place_iff.mp hp with hp | rfl | rfl
  · rcases part_of_mem_placeBefore hp with h' | h' <;> simp [h'] at h
  · rfl
  · cases h

theorem eq_placeEnding (hp : p ∈ l.place e number) (h : p.part = .ending) :
    p = l.placeEnding e number := by
  rcases mem_place_iff.mp hp with hp | rfl | rfl
  · rcases part_of_mem_placeBefore hp with h' | h' <;> simp [h'] at h
  · cases h
  · rfl

/-! ### Default links -/

theorem linkInto_node (id : String) (run : Run) :
    ∃ id', Run.linkInto (.node id) run = .node id' := by
  cases run with
  | nil => exact ⟨id, rfl⟩
  | cons first rest => exact ⟨first.1, rfl⟩

theorem defaultLink_of_mem_placeRun (hp : p ∈ placeRun part pov after run) :
    p.defaultLink = after ∨ ∃ id, p.defaultLink = .node id := by
  induction run with
  | nil => simp [placeRun] at hp
  | cons first rest ih =>
      rcases List.mem_cons.mp hp with rfl | hp
      · cases rest with
        | nil => exact .inl rfl
        | cons second rest => exact .inr ⟨second.1, rfl⟩
      · exact ih hp

theorem defaultLink_of_mem_placeTracks {meet : String}
    (hp : p ∈ placeTracks branches (.node meet) tracks) : ∃ id, p.defaultLink = .node id := by
  induction tracks with
  | nil => simp [placeTracks] at hp
  | cons t rest ih =>
      rcases List.mem_append.mp hp with hp | hp
      · rcases defaultLink_of_mem_placeRun hp with h | h
        · cases branches with
          | false =>
              rw [h]
              exact linkInto_node meet _
          | true => exact ⟨meet, h⟩
        · exact h
      · exact ih hp

/-- Before the investigation every node leads to a node, or past the prologue. -/
theorem defaultLink_of_mem_placeBefore (hp : p ∈ l.placeBefore e) :
    p.defaultLink = l.linkFromPrologue e ∨ ∃ id, p.defaultLink = .node id := by
  rcases List.mem_append.mp hp with hp | hp
  · exact defaultLink_of_mem_placeRun hp
  · exact .inr (defaultLink_of_mem_placeTracks hp)

/-- Each track has an option, which leads to the first node of the track. -/
theorem mem_trackOptions_iff {target : String} :
    target ∈ (trackOptions e tracks).map Choice.target ↔
      ∃ t ∈ tracks, ∃ first, t.2.head? = some first ∧ first.1 = target := by
  simp only [trackOptions, List.mem_map, List.mem_filterMap, Option.map_eq_some_iff]
  constructor
  · rintro ⟨_, ⟨t, ht, first, hfirst, rfl⟩, rfl⟩
    exact ⟨t, ht, first, hfirst, rfl⟩
  · rintro ⟨t, ht, first, hfirst, rfl⟩
    exact ⟨_, ⟨t, ht, first, hfirst, rfl⟩, rfl⟩

theorem tracks_ne_nil_of_branches (h : l.branches = true) : l.tracks ≠ [] := by
  simp only [Layout.branches, Bool.and_eq_true, Bool.not_eq_true'] at h
  exact List.isEmpty_eq_false_iff.mp h.1

theorem linkAfter_ne_choice (options : List Choice) : e.linkAfter number ≠ .choice options := by
  rw [Edition.linkAfter]
  split
  · simp
  · split <;> simp

/-- No default link is an empty choice. -/
theorem defaultLink_ne_choice_nil (hl : l.Complete) (hp : p ∈ l.place e number) :
    p.defaultLink ≠ .choice [] := by
  have hnode : ∀ id, Link.node id ≠ .choice [] := by simp
  rcases mem_place_iff.mp hp with hp | rfl | rfl
  · rcases defaultLink_of_mem_placeBefore hp with h | ⟨id, h⟩
    · rw [h, linkFromPrologue]
      split
      · -- A chapter that branches has a track, and its first node gives an option.
        rename_i hbranches
        obtain ⟨t, rest, htracks⟩ :=
          List.exists_cons_of_ne_nil (tracks_ne_nil_of_branches hbranches)
        have ht : t ∈ l.tracks := htracks ▸ List.mem_cons_self ..
        obtain ⟨first, run, hrun⟩ := List.exists_cons_of_ne_nil (hl.tracks t ht)
        intro hnil
        have hmem := (mem_trackOptions_iff (e := e)).mpr
          ⟨t, ht, first, by rw [hrun, List.head?_cons], rfl⟩
        rw [Link.choice.inj hnil] at hmem
        simp at hmem
      · obtain ⟨id, h⟩ := linkInto_node l.investigation.1 (firstRun l.tracks)
        exact h ▸ hnode id
    · exact h ▸ hnode id
  · exact hnode l.ending.1
  · exact linkAfter_ne_choice []

end Layout

end BranchingStory
