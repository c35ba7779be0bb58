import BranchingStory.Proofs.Chapter.WellFormed
import BranchingStory.Proofs.Translation.Coverage

/-!
# The shape of a compiled chapter

What a reader of a compiled chapter can rely on, whatever the draft.  The nodes are those of the
draft in the order of reading, and the investigation and the end close the chapter.  A node is a
choice exactly if it has options.  A track lists the nodes that are seen from its perspective, and
every other node is shared (`ChapterDraft.renders_of_compile`).

A chapter compiles only if its draft follows the rules, so a node has its shape from the rules of
its slot (`Placement.exists_node?_renders`).  The rest is about lists: the nodes stand side by side
with the slots of the draft.
-/

namespace BranchingStory

/-! ## Records and their drafts -/

/-- The node is that of a draft in a slot. -/
structure Node.Renders (node : Node) (number : Nat) (slot : Slot) (n : NodeDraft) : Prop where
  id : node.id = n.nameAt number slot
  kind : n.kind = some node.kind.name
  speaker : node.speaker = n.speaker
  text : node.text = n.text
  pov : node.pov = slot.pov
  tags : node.tags = .ofList n.tags

/-- The track lists the nodes of a draft, which are all that are seen from its perspective. -/
structure Track.Renders (track : Track) (ch : Chapter) (t : TrackDraft) : Prop where
  pov : track.pov = t.pov
  filled : track.nodes ≠ []
  nodes : track.nodes = t.nodes.mapIdx fun i n => n.nameAt ch.number (.track t.pov i)
  seen : track.nodes = (ch.nodes.filter (·.pov = .track track.pov)).map Node.id

/-- The chapter is that of a draft in a reference language. -/
structure Chapter.Renders (ch : Chapter) (reference : String) (c : ChapterDraft) : Prop where
  number : ch.number = c.number
  entry : ch.entry = entryName ch.number
  ids : ch.ids.Nodup
  nodes : List.Forall₂ (fun place node => node.Renders ch.number place.1 place.2) c.slotted ch.nodes
  /-- The investigation and the end close the chapter, and no other node is of their kinds. -/
  closing : ∃ before investigation ending, ch.nodes = before ++ [investigation, ending] ∧
    investigation.kind = .investigation ∧ ending.kind = .chapterEnd ∧
    ∀ n ∈ before, n.kind ≠ .investigation ∧ n.kind ≠ .chapterEnd
  converges : ∀ number kind found,
    Diagnostic.missingConvergence number kind found ∉ ch.convergenceProblems
  choices : ∀ n ∈ ch.nodes, (n.kind = .choice ↔ n.next.IsChoice) ∧ n.next ≠ .choice []
  covered : ∀ n ∈ ch.nodes, n.text.contains reference = true ∧ n.next.Covered reference
  speakers : ∀ n ∈ ch.nodes, n.speaker ≠ none → n.kind = .dialogue
  tracks : List.Forall₂ (fun t track => track.Renders ch t) c.tracks ch.tracks
  shared : ∀ n ∈ ch.nodes, (∀ track ∈ ch.tracks, n.id ∉ track.nodes) → n.pov = .shared

/-! ## Nodes -/

namespace Placement

variable {e : Edition} {number : Nat} {p : Placement} {c : ChapterDraft} {slot : Slot}
  {n : NodeDraft} {kind : NodeKind}

theorem isChoice_link_iff : p.link.IsChoice ↔
    p.draft.options ≠ [] ∨ p.draft.next = none ∧ p.defaultLink.IsChoice := by
  rw [link]
  cases p.draft.options with
  | cons o rest => simp [Link.IsChoice]
  | nil =>
      cases p.draft.next with
      | none => simp
      | some target => cases target <;> simp [LinkDraft.toLink, Link.IsChoice]

/-- A node that follows the rules has options exactly if it is a choice. -/
theorem isChoice_link_iff_of_wellFormed (hp : p.Fits c slot n)
    (h : n.WellFormed e.reference c slot kind) : p.link.IsChoice ↔ kind = .choice := by
  rw [isChoice_link_iff, hp.draft, hp.offers]
  constructor
  · rintro (hoptions | ⟨_, hselects⟩)
    · exact Decidable.not_imp_comm.mp h.plain hoptions
    · exact h.kind_of_selects hselects
  · intro hkind
    obtain ⟨hnext, ⟨hoptions, _⟩ | hselects⟩ := h.choice hkind
    · exact .inl hoptions
    · exact .inr ⟨hnext, hselects⟩

/-- A node without problems has its shape from its draft and its slot. -/
theorem exists_node?_renders (hp : p.Fits c slot n) (h : p.problems e c.number = []) :
    ∃ node, p.node? = some node ∧ node.Renders c.number slot n ∧
      n.WellFormed e.reference c slot node.kind ∧ (node.kind = .choice ↔ node.next.IsChoice) := by
  obtain ⟨kind, hrules⟩ := (problems_eq_nil_iff hp).mp h
  have hchoice := isChoice_link_iff_of_wellFormed hp hrules
  obtain ⟨rfl, hid, _, hpov, _⟩ := hp
  exact ⟨_, node?_eq_some_iff.mpr ⟨kind, kind?_eq_some_iff.mpr hrules.known, rfl⟩,
    ⟨hid, hrules.known, rfl, rfl, hpov, rfl⟩, hrules, hchoice.symm⟩

end Placement

/-! ## Slots by perspective -/

theorem forall_mem_mapIdx_slot {nodes : List NodeDraft} {slot : Nat → Slot}
    {P : Slot × NodeDraft → Prop} (h : ∀ i n, P (slot i, n)) :
    ∀ place ∈ nodes.mapIdx fun i n => (slot i, n), P place := by
  intro place hplace
  obtain ⟨i, _, rfl⟩ := List.mem_mapIdx.mp hplace
  exact h i _

namespace ChapterDraft

variable {e : Edition} {c : ChapterDraft} {ch : Chapter} {t : TrackDraft}

theorem mem_slottedBefore_iff {place : Slot × NodeDraft} : place ∈ c.slottedBefore ↔
    (∃ i n, c.prologue[i]? = some n ∧ place = (.prologue i, n)) ∨
      ∃ t ∈ c.tracks, ∃ i n, t.nodes[i]? = some n ∧ place = (.track t.pov i, n) := by
  simp only [slottedBefore, List.mem_append, List.mem_flatMap, List.mem_mapIdx,
    List.getElem?_eq_some_iff]
  grind

/-- Of the nodes that stand outside the tracks none is seen from the perspective of a track. -/
theorem exists_track_of_mem_slotted {place : Slot × NodeDraft} (h : place ∈ c.slotted)
    {pov : String} (hpov : place.1.pov = .track pov) : ∃ t ∈ c.tracks, t.pov = pov := by
  simp only [slotted, List.mem_append, Option.mem_toList, Option.map_eq_some_iff,
    mem_slottedBefore_iff] at h
  obtain ((⟨_, _, _, rfl⟩ | ⟨t, ht, _, _, _, rfl⟩) | ⟨_, _, rfl⟩) | ⟨_, _, rfl⟩ := h
  · cases hpov
  · exact ⟨t, ht, Perspective.track.inj hpov⟩
  · cases hpov
  · cases hpov

/-- The slots of a perspective are those of its track, if it has one track. -/
theorem filter_slotted_pov (hpovs : (c.tracks.map TrackDraft.pov).Nodup) (ht : t ∈ c.tracks) :
    c.slotted.filter (·.1.pov = .track t.pov) =
      t.nodes.mapIdx fun i n => (.track t.pov i, n) := by
  have hrun : ∀ s : TrackDraft, (s.nodes.mapIdx fun i n => (Slot.track s.pov i, n)).filter
      (·.1.pov = .track t.pov) =
        if s.pov = t.pov then s.nodes.mapIdx fun i n => (.track s.pov i, n) else [] := by
    intro s
    split
    · exact List.filter_eq_self.mpr (forall_mem_mapIdx_slot fun _ _ => by simpa [Slot.pov])
    · exact List.filter_eq_nil_iff.mpr (forall_mem_mapIdx_slot fun _ _ => by simpa [Slot.pov])
  have hprologue : (c.prologue.mapIdx fun i n => (Slot.prologue i, n)).filter
      (·.1.pov = .track t.pov) = [] :=
    List.filter_eq_nil_iff.mpr (forall_mem_mapIdx_slot fun _ _ => by simp [Slot.pov])
  have htracks : (c.tracks.flatMap fun s =>
      if s.pov = t.pov then s.nodes.mapIdx fun i n => (Slot.track s.pov i, n) else []) =
        t.nodes.mapIdx fun i n => (.track t.pov i, n) := by
    rw [flatMap_eq_of_unique hpovs.of_map ht, if_pos rfl]
    exact fun s hs hne => if_neg fun heq => hne (List.inj_on_of_nodup_map hpovs hs ht heq)
  rw [slotted, slottedBefore, List.filter_append, List.filter_append, List.filter_append,
    hprologue, List.filter_flatMap]
  simp only [hrun, htracks]
  cases c.investigation <;> cases c.ending <;> simp [Slot.pov]

/-! ## Compiled chapters -/

/-- Slot by slot a compiled chapter has the node of its draft, which follows the rules. -/
theorem forall₂_nodes_of_compile (h : c.compile e = .ok ch) :
    List.Forall₂ (fun place node => node.Renders ch.number place.1 place.2 ∧
      place.2.WellFormed e.reference c place.1 node.kind ∧
      (node.kind = .choice ↔ node.next.IsChoice)) c.slotted ch.nodes := by
  obtain ⟨l, hlayout, _, hclean, _, rfl⟩ := compile_eq_ok_iff.mp h
  exact forall₂_filterMap (fits_place hlayout) fun _ p hp hfits =>
    Placement.exists_node?_renders hfits (hclean p hp)

theorem exists_closing_of_compile (h : c.compile e = .ok ch) :
    ∃ before investigation ending, ch.nodes = before ++ [investigation, ending] ∧
      investigation.kind = .investigation ∧ ending.kind = .chapterEnd ∧
      ∀ n ∈ before, n.kind ≠ .investigation ∧ n.kind ≠ .chapterEnd := by
  have hnodes := forall₂_nodes_of_compile h
  obtain ⟨l, hlayout, _⟩ := compile_eq_ok_iff.mp h
  obtain ⟨_, _, hi, he, _⟩ := layout?_eq_some_iff.mp hlayout
  rw [slotted_eq hi he] at hnodes
  obtain ⟨before, closing, hsplit, hbefore, hclosing⟩ := exists_append_of_forall₂ hnodes
  obtain ⟨investigation, rest, ⟨_, hinvestigation, _⟩, hrest, rfl⟩ :=
    List.forall₂_cons_left_iff.mp hclosing
  obtain ⟨ending, none, ⟨_, hending, _⟩, hnone, rfl⟩ := List.forall₂_cons_left_iff.mp hrest
  obtain rfl := List.forall₂_nil_left_iff.mp hnone
  refine ⟨before, investigation, ending, hsplit, hinvestigation.investigation.mpr rfl,
    hending.chapterEnd.mpr rfl, fun n hn => ?_⟩
  obtain ⟨place, hplace, _, hrules, _⟩ := exists_mem_of_forall₂ hbefore hn
  have hslot : place.1 ≠ .investigation ∧ place.1 ≠ .ending := by
    obtain ⟨_, _, _, rfl⟩ | ⟨_, _, _, _, _, rfl⟩ := mem_slottedBefore_iff.mp hplace <;> simp
  exact ⟨mt hrules.investigation.mp hslot.1, mt hrules.chapterEnd.mp hslot.2⟩

/-- With one investigation and one end, convergence can fail by a missing path alone. -/
theorem missingConvergence_notMem_of_compile (h : c.compile e = .ok ch) {number : Nat}
    {kind : NodeKind} {found : Nat} :
    Diagnostic.missingConvergence number kind found ∉ ch.convergenceProblems := by
  have hids := nodup_ids_of_compile h
  obtain ⟨i, hi⟩ := (Chapter.ofKind_eq_singleton_iff hids).mpr (existsUnique_investigation h)
  obtain ⟨m, hm⟩ := (Chapter.ofKind_eq_singleton_iff hids).mpr (existsUnique_chapterEnd h)
  have hpath : ∀ a b, Diagnostic.missingConvergence number kind found ∉ ch.pathProblems a b := by
    intro a b
    rw [Chapter.pathProblems]
    split <;> simp
  rw [Chapter.convergenceProblems_of_unique hi hm, List.mem_append, List.mem_flatMap]
  rintro (⟨a, _, ha⟩ | hb)
  · exact hpath a i.id ha
  · exact hpath i.id m.id hb

theorem tracks_of_compile (h : c.compile e = .ok ch) : ch.tracks = c.tracks.map fun t =>
    ⟨t.pov, t.nodes.mapIdx fun i n => n.nameAt ch.number (.track t.pov i)⟩ := by
  obtain ⟨l, hlayout, _, _, _, rfl⟩ := compile_eq_ok_iff.mp h
  obtain ⟨_, _, _, _, _, _, rfl⟩ := layout?_eq_some_iff.mp hlayout
  rw [assemble, Layout.trackNames, List.map_map]
  exact List.map_congr_left fun t _ => congrArg (Track.mk t.pov) map_mapIdx

/-- A track of a compiled chapter and the nodes of its perspective are the same. -/
theorem renders_track_of_compile (h : c.compile e = .ok ch) (ht : t ∈ c.tracks) :
    Track.Renders ⟨t.pov, t.nodes.mapIdx fun i n => n.nameAt ch.number (.track t.pov i)⟩ ch t := by
  have hnodes := forall₂_nodes_of_compile h
  obtain ⟨l, hlayout, houtline, _, _, _⟩ := compile_eq_ok_iff.mp h
  obtain ⟨_, _, ⟨hpovs, htracks⟩, _, _⟩ := outlineProblems_eq_nil_iff.mp houtline
  have hfilled : t.nodes ≠ [] := (htracks t ht).2
  refine ⟨rfl, by simpa using hfilled, rfl, ?_⟩
  have hseen := List.rel_filter (p := fun place => place.1.pov = .track t.pov)
    (q := fun node => node.pov = .track t.pov) (fun _ _ hnode => by simp [hnode.1.pov]) hnodes
  rw [filter_slotted_pov hpovs ht] at hseen
  have hids := map_eq_map_of_forall₂ (f := fun place => place.2.nameAt ch.number place.1)
    (g := Node.id) hseen fun _ _ hnode => hnode.1.id.symm
  rwa [map_mapIdx] at hids

/-- Every compiled chapter has the shape of its draft. -/
theorem renders_of_compile (h : c.compile e = .ok ch) : ch.Renders e.reference c := by
  have hnodes := forall₂_nodes_of_compile h
  have htracks := tracks_of_compile h
  exact
    { number := number_of_compile h
      entry := by
        obtain ⟨_, _, _, _, _, rfl⟩ := compile_eq_ok_iff.mp h
        rfl
      ids := nodup_ids_of_compile h
      nodes := hnodes.imp fun _ _ hnode => hnode.1
      closing := exists_closing_of_compile h
      converges := fun _ _ _ => missingConvergence_notMem_of_compile h
      choices := by
        intro n hn
        obtain ⟨_, _, _, _, hchoice⟩ := exists_mem_of_forall₂ hnodes hn
        exact ⟨hchoice, next_ne_choice_nil_of_compile h hn⟩
      covered := by
        intro n hn
        refine ⟨contains_of_compile h (.text hn), fun o ho => ?_⟩
        obtain ⟨i, hi⟩ := List.mem_iff_getElem?.mp ho
        exact contains_of_compile h (.option hn hi)
      speakers := by
        intro n hn
        obtain ⟨_, _, hnode, hrules, _⟩ := exists_mem_of_forall₂ hnodes hn
        exact hnode.speaker ▸ hrules.speaker
      tracks := by
        rw [htracks, List.forall₂_map_right_iff, List.forall₂_same]
        exact fun t ht => renders_track_of_compile h ht
      shared := by
        intro n hn hnone
        obtain ⟨place, hplace, hnode, _⟩ := exists_mem_of_forall₂ hnodes hn
        cases hpov : n.pov with
        | shared => rfl
        | track pov =>
            obtain ⟨t, ht, rfl⟩ := exists_track_of_mem_slotted hplace (hnode.pov ▸ hpov)
            have hseen := (renders_track_of_compile h ht).seen
            refine absurd ?_ (hnone _ (htracks ▸ List.mem_map_of_mem ht))
            rw [hseen]
            exact List.mem_map_of_mem (List.mem_filter.mpr ⟨hn, by simpa using hpov⟩) }

/-- The first night branches into two tracks. -/
theorem renders_of_compile_firstNight :
    ∃ ch, firstNight.compile ⟨"english", none⟩ = .ok ch ∧ ch.Renders "english" firstNight := by
  have hcompile : ∃ ch, firstNight.compile ⟨"english", none⟩ = .ok ch := ⟨_, rfl⟩
  obtain ⟨ch, hch⟩ := hcompile
  exact ⟨ch, hch, renders_of_compile hch⟩

end ChapterDraft

end BranchingStory
