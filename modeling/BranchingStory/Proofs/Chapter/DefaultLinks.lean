import BranchingStory.Proofs.Chapter.Compiled
import BranchingStory.Proofs.Chapter.Soundness

/-!
# Chapters with default links

A draft is *plain* if its author left every link to the layout.  A layout can be seen as a
graph of default links, and two facts about that graph carry everything else.  Every default
link leads to a name of the layout (`Layout.within_place`).  A set of names that default links
do not leave holds the whole layout if it holds the first name
(`Layout.mem_of_closed`), and from the first name of any track it goes on to the
investigation (`Layout.investigation_of_closed`).

So the only problem that a plain chapter can have is at its ending
(`ChapterDraft.problems_of_plain`).
-/

namespace BranchingStory

/-! ## Problems of several nodes -/

/-- Where one element has problems at most, they are all there are. -/
theorem flatMap_eq_of_unique {α β : Type} {as : List α} {f : α → List β} {a : α}
    (hnodup : as.Nodup) (ha : a ∈ as) (hnil : ∀ b ∈ as, b ≠ a → f b = []) :
    as.flatMap f = f a := by
  obtain ⟨before, after, rfl⟩ := List.append_of_mem ha
  have hnot : a ∉ before ++ after := (List.nodup_middle.mp hnodup).notMem
  have hrest : ∀ b ∈ before ++ after, f b = [] := fun b hb =>
    hnil b (List.perm_middle.mem_iff.mpr (List.mem_cons_of_mem _ hb)) fun heq => hnot (heq ▸ hb)
  obtain ⟨hbefore, hafter⟩ := List.forall_mem_append.mp hrest
  rw [List.flatMap_append, List.flatMap_cons, List.flatMap_eq_nil_iff.mpr hbefore,
    List.flatMap_eq_nil_iff.mpr hafter, List.nil_append, List.append_nil]

theorem flatMap_ite_singleton {α β : Type} {as : List α} {P : α → Prop} [DecidablePred P]
    {f : α → β} : (as.flatMap fun a => if P a then [f a] else []) = (as.filter P).map f := by
  induction as with
  | nil => rfl
  | cons a rest ih =>
      rw [List.flatMap_cons, ih]
      by_cases h : P a
      · simp [h]
      · simp [h]

/-! ## Where default links lead -/

/-- No local target of the link is outside of `R`. -/
def Link.Within (R : String → Prop) (link : Link) : Prop := ∀ t ∈ link.localTargets, R t

theorem Link.within_node_iff {R : String → Prop} {id : String} :
    (Link.node id).Within R ↔ R id := by
  simp [Within, localTargets]

/-- Wherever the end of a chapter leads, it leaves the chapter. -/
theorem Edition.within_linkAfter {e : Edition} {number : Nat} {R : String → Prop} :
    (e.linkAfter number).Within R := by
  rw [linkAfter]
  split
  · simp [Link.Within, Link.localTargets]
  · split <;> simp [Link.Within, Link.localTargets]

namespace Layout

variable {R : String → Prop} {e : Edition} {number : Nat} {l : Layout} {part : Part}
  {pov : Perspective} {past after meet : Link} {run : Run} {branches : Bool}
  {tracks : List (TrackDraft × Run)}

theorem within_linkInto (hpast : past.Within R) (hrun : ∀ n ∈ run, R n.1) :
    (Run.linkInto past run).Within R := by
  cases run with
  | nil => exact hpast
  | cons first rest => exact Link.within_node_iff.mpr (hrun first (List.mem_cons_self ..))

theorem within_placeRun (hafter : after.Within R) (hrun : ∀ n ∈ run, R n.1) :
    ∀ p ∈ placeRun part pov after run, p.defaultLink.Within R := by
  induction run with
  | nil => simp [placeRun]
  | cons first rest ih =>
      have hrest : ∀ n ∈ rest, R n.1 := fun n hn => hrun n (List.mem_cons_of_mem _ hn)
      intro p hp
      rcases List.mem_cons.mp hp with rfl | hp
      · exact within_linkInto hafter hrest
      · exact ih hrest p hp

theorem forall_mem_firstRun (htracks : ∀ t ∈ tracks, ∀ n ∈ t.2, R n.1) :
    ∀ n ∈ firstRun tracks, R n.1 := by
  cases tracks with
  | nil => simp [firstRun]
  | cons t rest => exact htracks t (List.mem_cons_self ..)

theorem within_placeTracks (hmeet : meet.Within R) (htracks : ∀ t ∈ tracks, ∀ n ∈ t.2, R n.1) :
    ∀ p ∈ placeTracks branches meet tracks, p.defaultLink.Within R := by
  induction tracks with
  | nil => simp [placeTracks]
  | cons t rest ih =>
      have hrest : ∀ t ∈ rest, ∀ n ∈ t.2, R n.1 := fun t ht =>
        htracks t (List.mem_cons_of_mem _ ht)
      intro p hp
      rcases List.mem_append.mp hp with hp | hp
      · refine within_placeRun ?_ (htracks t (List.mem_cons_self ..)) p hp
        split
        · exact hmeet
        · exact within_linkInto hmeet (forall_mem_firstRun hrest)
      · exact ih hrest p hp

theorem within_linkFromPrologue (hmeet : R l.investigation.1)
    (htracks : ∀ t ∈ l.tracks, ∀ n ∈ t.2, R n.1) : (l.linkFromPrologue e).Within R := by
  rw [linkFromPrologue]
  split
  · intro target htarget
    obtain ⟨t, ht, first, hfirst, rfl⟩ := mem_trackOptions_iff.mp htarget
    exact htracks t ht first (List.mem_of_mem_head? hfirst)
  · exact within_linkInto (Link.within_node_iff.mpr hmeet) (forall_mem_firstRun htracks)

/-- Every default link leads to a name of the layout. -/
theorem within_place : ∀ p ∈ l.place e number, p.defaultLink.Within (· ∈ l.names) := by
  obtain ⟨hprologue, htracks, hmeet, hending⟩ :=
    forall_mem_names_iff (l := l) (R := (· ∈ l.names)).mp fun _ h => h
  intro p hp
  rcases mem_place_iff.mp hp with hp | rfl | rfl
  · rcases List.mem_append.mp hp with hp | hp
    · exact within_placeRun (within_linkFromPrologue hmeet htracks) hprologue p hp
    · exact within_placeTracks (Link.within_node_iff.mpr hmeet) htracks p hp
  · exact Link.within_node_iff.mpr hending
  · exact Edition.within_linkAfter

/-- Every default link but that of the ending leads to a node or offers a choice. -/
theorem defaultLink_cases {p : Placement} (hp : p ∈ l.place e number) :
    p = l.placeEnding e number ∨ (∃ id, p.defaultLink = .node id) ∨
      ∃ options, p.defaultLink = .choice options := by
  rcases mem_place_iff.mp hp with hp | rfl | rfl
  · right
    rcases defaultLink_of_mem_placeBefore hp with h | h
    · rw [h, linkFromPrologue]
      split
      · exact .inr ⟨_, rfl⟩
      · exact .inl (linkInto_node _ _)
    · exact .inl h
  · exact .inr (.inl ⟨_, rfl⟩)
  · exact .inl rfl

/-! ## What default links reach -/

/-- Default links do not leave `R`. -/
def Closed (R : String → Prop) (ps : List Placement) : Prop :=
  ∀ p ∈ ps, R p.id → p.defaultLink.Within R

theorem closed_append_iff {ps qs : List Placement} :
    Closed R (ps ++ qs) ↔ Closed R ps ∧ Closed R qs := List.forall_mem_append

/-- A link into a run with a node does not depend on what is past the run. -/
theorem linkInto_congr (hrun : run ≠ []) (past past' : Link) :
    Run.linkInto past run = Run.linkInto past' run := by
  cases run with
  | nil => exact absurd rfl hrun
  | cons first rest => rfl

/-- A run that is entered is read to its end and left. -/
theorem of_closed_placeRun (hclosed : Closed R (placeRun part pov after run))
    (hinto : (Run.linkInto after run).Within R) : (∀ n ∈ run, R n.1) ∧ after.Within R := by
  induction run with
  | nil => exact ⟨by simp, hinto⟩
  | cons first rest ih =>
      obtain ⟨hfirst, hrest⟩ := List.forall_mem_cons.mp hclosed
      have hmem : R first.1 := Link.within_node_iff.mp hinto
      obtain ⟨hnodes, hafter⟩ := ih hrest (hfirst hmem)
      exact ⟨List.forall_mem_cons.mpr ⟨hmem, hnodes⟩, hafter⟩

/-- A track that is entered is read to its end, and then the tracks meet.  If the chapter
does not branch, the tracks after it are read first. -/
theorem of_closed_placeTracks (htracks : ∀ t ∈ tracks, t.2 ≠ [])
    (hclosed : Closed R (placeTracks branches meet tracks)) :
    ∀ t ∈ tracks, (Run.linkInto meet t.2).Within R → (∀ n ∈ t.2, R n.1) ∧ meet.Within R := by
  induction tracks with
  | nil => simp
  | cons t rest ih =>
      obtain ⟨ht, hrest⟩ := List.forall_mem_cons.mp htracks
      obtain ⟨hrun, hclosed⟩ := closed_append_iff.mp hclosed
      have hlater := ih hrest hclosed
      refine List.forall_mem_cons.mpr ⟨fun hinto => ?_, hlater⟩
      rw [linkInto_congr ht _ (if branches then meet else _)] at hinto
      obtain ⟨hnodes, hafter⟩ := of_closed_placeRun hrun hinto
      refine ⟨hnodes, ?_⟩
      cases branches with
      | true => exact hafter
      | false =>
          cases rest with
          | nil => exact hafter
          | cons next rest => exact (hlater next (List.mem_cons_self ..) hafter).2

/-- If the chapter does not branch, entering the first track leads into every track. -/
theorem into_tracks_of_closed (htracks : ∀ t ∈ tracks, t.2 ≠ [])
    (hclosed : Closed R (placeTracks false meet tracks))
    (hinto : (Run.linkInto meet (firstRun tracks)).Within R) :
    ∀ t ∈ tracks, (Run.linkInto meet t.2).Within R := by
  induction tracks with
  | nil => simp
  | cons t rest ih =>
      obtain ⟨ht, hrest⟩ := List.forall_mem_cons.mp htracks
      obtain ⟨hrun, hclosed⟩ := closed_append_iff.mp hclosed
      refine List.forall_mem_cons.mpr ⟨hinto, ih hrest hclosed ?_⟩
      rw [show firstRun (t :: rest) = t.2 from rfl, linkInto_congr ht _ (if false then meet else _)]
        at hinto
      exact (of_closed_placeRun hrun hinto).2

/-- The prologue leads into every track. -/
theorem into_tracks_of_linkFromPrologue (hl : l.Complete)
    (hclosed : Closed R (placeTracks l.branches (.node l.investigation.1) l.tracks))
    (hinto : (l.linkFromPrologue e).Within R) :
    ∀ t ∈ l.tracks, (Run.linkInto (.node l.investigation.1) t.2).Within R := by
  rw [linkFromPrologue] at hinto
  cases hbranches : l.branches with
  | true =>
      rw [hbranches] at hinto
      intro t ht
      obtain ⟨first, rest, hrun⟩ := List.exists_cons_of_ne_nil (hl.tracks t ht)
      have hoption := mem_trackOptions_iff (e := e).mpr
        ⟨t, ht, first, by rw [hrun, List.head?_cons], rfl⟩
      rw [hrun]
      exact Link.within_node_iff.mpr (hinto _ hoption)
  | false =>
      rw [hbranches] at hinto hclosed
      exact into_tracks_of_closed hl.tracks hclosed hinto

/-- The prologue leads to the investigation, through the tracks if there are any. -/
theorem investigation_of_linkFromPrologue (hl : l.Complete)
    (hclosed : Closed R (placeTracks l.branches (.node l.investigation.1) l.tracks))
    (hinto : (l.linkFromPrologue e).Within R) : R l.investigation.1 := by
  have htracks := into_tracks_of_linkFromPrologue hl hclosed hinto
  cases hnone : l.tracks with
  | nil =>
      rw [linkFromPrologue, Layout.branches, hnone] at hinto
      exact Link.within_node_iff.mp hinto
  | cons t rest =>
      have ht : t ∈ l.tracks := hnone ▸ List.mem_cons_self ..
      exact Link.within_node_iff.mp (of_closed_placeTracks hl.tracks hclosed t ht (htracks t ht)).2

/-- From the first name of a track default links lead to the investigation. -/
theorem investigation_of_closed (hl : l.Complete) (hclosed : Closed R (l.place e number))
    {t : TrackDraft × Run} (ht : t ∈ l.tracks) {first : String × NodeDraft}
    (hfirst : t.2.head? = some first) (h : R first.1) : R l.investigation.1 := by
  rw [place_eq, closed_append_iff, placeBefore, closed_append_iff] at hclosed
  have hinto : (Run.linkInto (.node l.investigation.1) t.2).Within R := by
    obtain ⟨rest, hrun⟩ := List.head?_eq_some_iff.mp hfirst
    rw [hrun]
    exact Link.within_node_iff.mpr h
  exact Link.within_node_iff.mp (of_closed_placeTracks hl.tracks hclosed.1.2 t ht hinto).2

/-- From the investigation the default link leads to the ending. -/
theorem ending_of_closed (hclosed : Closed R (l.place e number)) (h : R l.investigation.1) :
    R l.ending.1 :=
  Link.within_node_iff.mp (hclosed l.placeInvestigation (mem_place_iff.mpr (.inr (.inl rfl))) h)

/-- From the first name default links lead to every name. -/
theorem mem_of_closed (hl : l.Complete) (hclosed : Closed R (l.place e number))
    {first : String × NodeDraft} (hfirst : l.prologue.head? = some first) (h : R first.1) :
    ∀ id ∈ l.names, R id := by
  have hparts := hclosed
  rw [place_eq, closed_append_iff, placeBefore, closed_append_iff] at hparts
  obtain ⟨⟨hprologue, htracks⟩, _⟩ := hparts
  obtain ⟨rest, hrun⟩ := List.head?_eq_some_iff.mp hfirst
  obtain ⟨hopening, hout⟩ := of_closed_placeRun hprologue
    (by rw [hrun]; exact Link.within_node_iff.mpr h)
  have hinto := into_tracks_of_linkFromPrologue hl htracks hout
  have hmeet := investigation_of_linkFromPrologue hl htracks hout
  exact forall_mem_names_iff.mpr ⟨hopening,
    fun t ht => (of_closed_placeTracks hl.tracks htracks t ht (hinto t ht)).1, hmeet,
    ending_of_closed hclosed hmeet⟩

end Layout

/-! ## Plain drafts -/

namespace ChapterDraft

/-- The drafts of the nodes in the order of reading. -/
def nodes (c : ChapterDraft) : List NodeDraft :=
  c.prologue ++ c.tracks.flatMap TrackDraft.nodes ++ c.investigation.toList ++ c.ending.toList

/-- The author set no link and did not rename the entry.  Any other node may have any name. -/
structure Plain (c : ChapterDraft) : Prop where
  /-- No node says where it leads. -/
  next : ∀ n ∈ c.nodes, n.next = none
  /-- No node has options. -/
  options : ∀ n ∈ c.nodes, n.options = []
  /-- The first node has the name of the entry, written out or not. -/
  entry : ∀ n, c.prologue.head? = some n → n.id = none ∨ n.id = some (entryName c.number)

/-- The name of the ending. -/
def endId (c : ChapterDraft) : String :=
  (c.ending.bind NodeDraft.id).getD (Slot.ending.nodeName c.number)

variable {e : Edition} {c : ChapterDraft} {l : Layout} {ch : Chapter} {p : Placement}

theorem map_snd_asRun (h : c.layout? = some l) : l.asRun.map Prod.snd = c.nodes := by
  obtain ⟨investigation, ending, hi, he, _, _, rfl⟩ := layout?_eq_some_iff.mp h
  simp [Layout.asRun, nodes, hi, he, map_snd_ofDrafts, List.flatMap_map, List.map_flatMap]

/-- The first name of a plain draft is the entry. -/
theorem head?_prologue_of_plain (hc : c.Plain) (h : c.layout? = some l) :
    ∃ draft, l.prologue.head? = some (entryName c.number, draft) := by
  obtain ⟨_, _, _, _, hprologue, _, rfl⟩ := layout?_eq_some_iff.mp h
  obtain ⟨first, rest, hfirst⟩ := List.exists_cons_of_ne_nil hprologue
  have hid : first.id.getD ((Slot.prologue 0).nodeName c.number) = entryName c.number := by
    rcases hc.entry first (by rw [hfirst, List.head?_cons]) with hid | hid
    · rw [hid]
      rfl
    · rw [hid]
      rfl
  exact ⟨first, by simp [Run.ofDrafts, hfirst, hid]⟩

theorem ending_fst (h : c.layout? = some l) : l.ending.1 = c.endId := by
  obtain ⟨_, ending, _, he, _, _, rfl⟩ := layout?_eq_some_iff.mp h
  simp [endId, he]

/-- In a plain draft every node leads where the layout says. -/
theorem link_of_plain (hc : c.Plain) (h : c.layout? = some l) (hp : p ∈ l.place e c.number) :
    p.link = p.defaultLink := by
  have hnamed : p.named ∈ l.asRun := by
    rw [← Layout.map_named_place e c.number]
    exact List.mem_map_of_mem hp
  have hdraft : p.draft ∈ c.nodes := by
    rw [← map_snd_asRun h]
    exact List.mem_map_of_mem (f := Prod.snd) hnamed
  exact Placement.link_eq_defaultLink (hc.options _ hdraft) (hc.next _ hdraft)

/-! ## Plain chapters -/

/-- The default links of a plain draft are links of its chapter. -/
theorem closed_route_of_plain (hc : c.Plain) (h : c.layout? = some l)
    (hproblems : l.Clean e c.number) (a : String) :
    Layout.Closed ((c.assemble e l).Route a) (l.place e c.number) := by
  intro p hp hroute t ht
  obtain ⟨n, hnode, _⟩ := Placement.exists_node_of_problems_eq_nil (hproblems p hp)
  have hn : n ∈ (c.assemble e l).nodes := mem_nodes_assemble_iff.mpr ⟨p, hp, hnode⟩
  have hmem : t ∈ (c.assemble e l).ids := by
    rw [ids_assemble hproblems]
    exact Layout.within_place p hp t ht
  rw [← Placement.id_of_node? hnode] at hroute
  refine hroute.tail hn ?_ hmem
  rw [Node.localTargets, Placement.next_of_node? hnode, link_of_plain hc h hp]
  exact ht

theorem endId_mem_ids (h : c.compile e = .ok ch) : c.endId ∈ ch.ids := by
  obtain ⟨l, hlayout, _, hproblems, _, rfl⟩ := compile_eq_ok_iff.mp h
  rw [ids_assemble hproblems, ← ending_fst hlayout]
  exact (Layout.forall_mem_names_iff.mp fun _ h => h).2.2.2

/-- The entry of a plain chapter is a node. -/
theorem entry_mem_ids_of_plain (hc : c.Plain) (h : c.compile e = .ok ch) : ch.entry ∈ ch.ids := by
  obtain ⟨l, hlayout, _, hproblems, _, rfl⟩ := compile_eq_ok_iff.mp h
  obtain ⟨first, hfirst⟩ := head?_prologue_of_plain hc hlayout
  rw [ids_assemble hproblems]
  exact (Layout.forall_mem_names_iff.mp fun _ h => h).1 _ (List.mem_of_mem_head? hfirst)

/-- Every node of a plain chapter is reached from the entry. -/
theorem route_entry_of_plain (hc : c.Plain) (h : c.compile e = .ok ch) :
    ∀ id ∈ ch.ids, ch.Route ch.entry id := by
  obtain ⟨l, hlayout, _, hproblems, _, rfl⟩ := compile_eq_ok_iff.mp h
  obtain ⟨first, hfirst⟩ := head?_prologue_of_plain hc hlayout
  rw [ids_assemble hproblems]
  exact Layout.mem_of_closed (complete_of_layout? hlayout)
    (closed_route_of_plain hc hlayout hproblems _) hfirst (.refl _)

/-- In a plain chapter the tracks meet at the investigation, and it leads to the end. -/
theorem convergenceProblems_of_plain (hc : c.Plain) (h : c.compile e = .ok ch) :
    ch.convergenceProblems = [] := by
  rw [Chapter.convergenceProblems_eq_nil_iff (nodup_ids_of_compile h)]
  refine ⟨existsUnique_investigation h, existsUnique_chapterEnd h, ?_⟩
  obtain ⟨l, hlayout, _, hproblems, _, rfl⟩ := compile_eq_ok_iff.mp h
  have hcomplete := complete_of_layout? hlayout
  have hclosed := closed_route_of_plain hc hlayout hproblems
  have hinvestigation : ∀ n ∈ (c.assemble e l).nodes, n.kind = .investigation →
      n.id = l.investigation.1 := fun n hn hkind =>
    Placement.id_of_node? ((node?_placeInvestigation_iff hproblems).mpr ⟨hn, hkind⟩)
  have hending : ∀ n ∈ (c.assemble e l).nodes, n.kind = .chapterEnd → n.id = l.ending.1 :=
    fun n hn hkind => Placement.id_of_node? ((node?_placeEnding_iff hproblems).mpr ⟨hn, hkind⟩)
  constructor
  · intro t ht first hfirst n hn hkind
    obtain ⟨t, hmem, rfl⟩ := List.mem_map.mp ht
    rw [List.head?_map, Option.map_eq_some_iff] at hfirst
    obtain ⟨first, hfirst, rfl⟩ := hfirst
    rw [hinvestigation n hn hkind]
    exact Layout.investigation_of_closed hcomplete (hclosed first.1) hmem hfirst (.refl _)
  · intro n hn hkind m hm hkind'
    rw [hinvestigation n hn hkind, hending m hm hkind']
    exact Layout.ending_of_closed (hclosed l.investigation.1) (.refl _)

/-- In a plain chapter every link but that of the end leads to a node. -/
theorem linkProblems_of_plain (hc : c.Plain) (h : c.compile e = .ok ch) (numbers : List Nat)
    (last : Nat) {n : Node} (hn : n ∈ ch.nodes) (hkind : n.kind ≠ .chapterEnd) :
    ch.linkProblems numbers last n = [] := by
  rw [Chapter.linkProblems_eq_nil_iff]
  refine ⟨?_, fun hend => absurd hend hkind⟩
  obtain ⟨l, hlayout, _, hproblems, _, rfl⟩ := compile_eq_ok_iff.mp h
  obtain ⟨p, hp, hnode⟩ := mem_nodes_assemble_iff.mp hn
  have hwithin := Layout.within_place p hp
  rw [← ids_assemble hproblems, ← link_of_plain hc hlayout hp, ← Placement.next_of_node? hnode]
    at hwithin
  rcases Layout.defaultLink_cases hp with rfl | ⟨id, hlink⟩ | ⟨options, hlink⟩
  · exact absurd ((node?_placeEnding_iff hproblems).mp hnode).2 hkind
  · rw [← link_of_plain hc hlayout hp, ← Placement.next_of_node? hnode] at hlink
    rw [hlink] at hwithin ⊢
    exact Link.within_node_iff.mp hwithin
  · rw [← link_of_plain hc hlayout hp, ← Placement.next_of_node? hnode] at hlink
    rw [hlink] at hwithin ⊢
    exact fun o ho => hwithin _ (List.mem_map_of_mem ho)

/-- The only problem that a plain chapter can have is at its ending. -/
theorem problems_of_plain (hc : c.Plain) (h : c.compile e = .ok ch) (numbers : List Nat)
    (last : Nat) :
    ∃ n, n.id = c.endId ∧ n.kind = .chapterEnd ∧ n.next = e.linkAfter c.number ∧
      ch.problems numbers last = ch.linkProblems numbers last n := by
  obtain ⟨n, ⟨hn, hkind⟩, hunique⟩ := existsUnique_chapterEnd h
  have hlinks : ch.nodes.flatMap (ch.linkProblems numbers last) =
      ch.linkProblems numbers last n := by
    refine flatMap_eq_of_unique (List.Nodup.of_map _ (nodup_ids_of_compile h)) hn ?_
    intro m hm hne
    exact linkProblems_of_plain hc h numbers last hm fun hkind' => hne (hunique m ⟨hm, hkind'⟩)
  have hentry : ch.entryProblems = [] :=
    Chapter.entryProblems_eq_nil_iff.mpr (entry_mem_ids_of_plain hc h)
  have hreach : ch.reachProblems = [] := by
    rw [List.eq_nil_iff_forall_not_mem]
    intro d hd
    obtain ⟨_, m, hm, _, hunreached⟩ :=
      (Chapter.mem_reachProblems_iff (nodup_ids_of_compile h)).mp hd
    exact hunreached (route_entry_of_plain hc h _ (Chapter.id_mem_ids hm))
  have hproblems : ch.problems numbers last = ch.linkProblems numbers last n := by
    rw [Chapter.problems, hentry, hlinks, convergenceProblems_of_plain hc h, hreach,
      List.nil_append, List.append_nil, List.append_nil]
  obtain ⟨l, hlayout, _, hplaced, _, rfl⟩ := compile_eq_ok_iff.mp h
  have hnode := (node?_placeEnding_iff hplaced).mpr ⟨hn, hkind⟩
  have hlink : n.next = e.linkAfter c.number := by
    rw [Placement.next_of_node? hnode,
      link_of_plain hc hlayout (Layout.mem_place_iff.mpr (.inr (.inr rfl)))]
    rfl
  exact ⟨n, (Placement.id_of_node? hnode).trans (ending_fst hlayout), hkind, hlink, hproblems⟩

/-- An ending that ends the story does so rightly in the last chapter only. -/
theorem problems_of_plain_of_ending (hc : c.Plain) (h : c.compile e = .ok ch)
    (hlink : e.linkAfter c.number = .ending) (numbers : List Nat) (last : Nat) :
    ch.problems numbers last =
      if c.number = last then [] else [.brokenLink c.number c.endId endingName] := by
  obtain ⟨n, hid, _, hnext, hproblems⟩ := problems_of_plain hc h numbers last
  rw [hlink] at hnext
  rw [hproblems, Chapter.linkProblems, Chapter.brokenTargets, hnext, number_of_compile h, hid]
  by_cases hlast : c.number = last
  · simp [hlast, Chapter.expectedEnd]
  · simp [hlast]

/-- An ending that leads to the next chapter does so rightly if there is one. -/
theorem problems_of_plain_of_next (hc : c.Plain) (h : c.compile e = .ok ch)
    (hlink : e.linkAfter c.number = .chapter (c.number + 1)) {numbers : List Nat} {last : Nat}
    (hlast : last + 1 ∉ numbers) :
    ch.problems numbers last =
      if c.number + 1 ∈ numbers then []
      else [.brokenLink c.number c.endId (entryName (c.number + 1))] := by
  obtain ⟨n, hid, _, hnext, hproblems⟩ := problems_of_plain hc h numbers last
  rw [hlink] at hnext
  rw [hproblems, Chapter.linkProblems, Chapter.brokenTargets, hnext, number_of_compile h, hid]
  by_cases hmem : c.number + 1 ∈ numbers
  · have hne : c.number ≠ last := fun heq => hlast (heq ▸ hmem)
    simp [hmem, hne, Chapter.expectedEnd]
  · simp [hmem]

/-! ## Plain drafts under another last chapter -/

/-- Where the story ends is nothing that a draft could be rejected for. -/
theorem exists_compile_of_lastChapter (h : c.compile e = .ok ch) (lastChapter : Option Nat) :
    ∃ ch', c.compile { e with lastChapter := lastChapter } = .ok ch' := by
  obtain ⟨l, hlayout, houtline, hproblems, hids, _⟩ := compile_eq_ok_iff.mp h
  have hplaced : ∀ p ∈ l.place { e with lastChapter := lastChapter } c.number,
      p.problems e c.number = [] := by
    intro p hp
    rcases Layout.mem_place_iff.mp hp with hp | rfl | rfl
    · exact hproblems p (Layout.mem_place_iff.mpr (.inl hp))
    · exact hproblems _ (Layout.mem_place_iff.mpr (.inr (.inl rfl)))
    · have hending := hproblems (l.placeEnding e c.number)
        (Layout.mem_place_iff.mpr (.inr (.inr rfl)))
      obtain ⟨kind, hkind, hallows⟩ := Placement.kind?_of_problems_eq_nil hending
      have hend : kind = .chapterEnd := by simpa [Layout.placeEnding, Part.allows] using hallows
      have hchoice : (l.placeEnding e c.number).kind? ≠ some .choice := by simp [hkind, hend]
      exact (Placement.problems_congr_defaultLink hchoice _).trans hending
  refine ⟨_, compile_eq_ok_iff.mpr ⟨l, hlayout, houtline, hplaced, ?_, rfl⟩⟩
  rw [ids_assemble hplaced]
  rwa [ids_assemble hproblems] at hids

end ChapterDraft

end BranchingStory
