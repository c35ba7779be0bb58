import BranchingStory.Proofs.Alignment
import BranchingStory.Proofs.Chapter.Compiled

/-!
# The slots of a draft

A slot says where a node stands, and `ChapterDraft.slotted` lists the nodes of a draft in the order
of reading, each in its slot.  The list asks for no opening, no investigation and no ending, so it
is there even if the draft has no layout.

A layout places exactly these nodes (`ChapterDraft.fits_place`).  The slot decides the part, the
perspective and the name of a node without one.  It also decides whether the default link is a
choice: only a node that selects a track has options which its author did not write.
-/

namespace BranchingStory

/-! ## Slots -/

/-- The part of a chapter that a slot belongs to. -/
def Slot.part : Slot → Part
  | prologue _ => .prologue
  | track _ _ => .track
  | investigation => .investigation
  | ending => .ending

/-- Whose eyes a node in the slot is seen through. -/
def Slot.pov : Slot → Perspective
  | track pov _ => .track pov
  | prologue _ | investigation | ending => .shared

/-- The name of the node in a slot, its author's or one from the slot. -/
def NodeDraft.nameAt (n : NodeDraft) (chapter : Nat) (slot : Slot) : String :=
  n.id.getD (slot.nodeName chapter)

/-- The link leads through options. -/
def Link.IsChoice (link : Link) : Prop := ∃ options, link = .choice options

namespace ChapterDraft

/-- The drafts of the nodes before the investigation, each in its slot. -/
def slottedBefore (c : ChapterDraft) : List (Slot × NodeDraft) :=
  (c.prologue.mapIdx fun i n => (.prologue i, n))
    ++ c.tracks.flatMap fun t => t.nodes.mapIdx fun i n => (.track t.pov i, n)

/-- The drafts of the nodes in the order of reading, each in its slot. -/
def slotted (c : ChapterDraft) : List (Slot × NodeDraft) :=
  c.slottedBefore ++ (c.investigation.map (Slot.investigation, ·)).toList
    ++ (c.ending.map (Slot.ending, ·)).toList

/-- The names of the nodes in the order of reading. -/
def names (c : ChapterDraft) : List String :=
  c.slotted.map fun (slot, n) => n.nameAt c.number slot

/-- The node ends the prologue and leaves the player to choose among the tracks. -/
structure Selects (c : ChapterDraft) (slot : Slot) (n : NodeDraft) : Prop where
  tracks : c.tracks ≠ []
  slot : slot = .prologue (c.prologue.length - 1)
  kind : n.kind = some "choice"
  options : n.options = []

end ChapterDraft

/-- The placement is that of a node in a slot. -/
structure Placement.Fits (p : Placement) (c : ChapterDraft) (slot : Slot) (n : NodeDraft) :
    Prop where
  draft : p.draft = n
  id : p.id = n.nameAt c.number slot
  part : p.part = slot.part
  pov : p.pov = slot.pov
  offers : p.defaultLink.IsChoice ↔ c.Selects slot n

/-! ## Placing slot by slot -/

namespace Layout

variable {part : Part} {pov : Perspective} {after : Link} {e : Edition} {number : Nat}
  {slot : Nat → Slot} {nodes : List NodeDraft}

theorem isChoice_linkInto_iff {run : Run} :
    (Run.linkInto after run).IsChoice ↔ run = [] ∧ after.IsChoice := by
  cases run with
  | nil => simp [Run.linkInto]
  | cons first rest => simp [Run.linkInto, Link.IsChoice]

theorem not_isChoice_node (id : String) : ¬ (Link.node id).IsChoice := by
  simp [Link.IsChoice]

theorem not_isChoice_linkAfter : ¬ (e.linkAfter number).IsChoice := by
  rintro ⟨options, h⟩
  exact linkAfter_ne_choice options h

theorem placeRun_eq_mapIdx (run : Run) : placeRun part pov after run = run.mapIdx fun i node =>
    ⟨node.2, node.1, part, pov, Run.linkInto after (run.drop (i + 1))⟩ := by
  induction run with
  | nil => rfl
  | cons first rest ih =>
      rw [placeRun, ih, List.mapIdx_cons]
      rfl

/-- The node at each position has its name from its slot and leads to the rest of the run. -/
theorem placeRun_ofDrafts : placeRun part pov after (Run.ofDrafts number slot nodes) =
    nodes.mapIdx fun i n => ⟨n, n.nameAt number (slot i), part, pov,
      Run.linkInto after ((Run.ofDrafts number slot nodes).drop (i + 1))⟩ := by
  rw [placeRun_eq_mapIdx]
  conv_lhs => rw [Run.ofDrafts]
  rw [List.mapIdx_mapIdx]
  rfl

/-- Of a placed run only the last node may lead through options, and then those that follow the
run. -/
theorem forall₂_placeRun {R : Slot × NodeDraft → Placement → Prop}
    (h : ∀ i n link, nodes[i]? = some n →
      (link.IsChoice ↔ i + 1 = nodes.length ∧ after.IsChoice) →
        R (slot i, n) ⟨n, n.nameAt number (slot i), part, pov, link⟩) :
    List.Forall₂ R (nodes.mapIdx fun i n => (slot i, n))
      (placeRun part pov after (Run.ofDrafts number slot nodes)) := by
  rw [placeRun_ofDrafts]
  refine forall₂_mapIdx fun i n hn => h i n _ hn ?_
  have hlt : i < nodes.length := (List.getElem?_eq_some_iff.mp hn).1
  have hlast : (Run.ofDrafts number slot nodes).drop (i + 1) = [] ↔ i + 1 = nodes.length := by
    rw [List.drop_eq_nil_iff, Run.ofDrafts, List.length_mapIdx]
    omega
  rw [isChoice_linkInto_iff, hlast]

/-- No node of a track leads through options that its author did not write. -/
theorem forall₂_placeTracks {R : Slot × NodeDraft → Placement → Prop} {branches : Bool}
    {meet : String} {tracks : List TrackDraft}
    (h : ∀ pov i n link, ¬ link.IsChoice →
      R (.track pov i, n) ⟨n, n.nameAt number (.track pov i), .track, .track pov, link⟩) :
    List.Forall₂ R (tracks.flatMap fun t => t.nodes.mapIdx fun i n => (.track t.pov i, n))
      (placeTracks branches (.node meet)
        (tracks.map fun t => (t, Run.ofDrafts number (.track t.pov) t.nodes))) := by
  induction tracks with
  | nil => exact .nil
  | cons t rest ih =>
      rw [List.flatMap_cons, List.map_cons, placeTracks]
      refine List.rel_append (forall₂_placeRun fun i n link _ hlink => h t.pov i n link ?_) ih
      rw [hlink]
      rintro ⟨_, hafter⟩
      split at hafter
      · exact not_isChoice_node meet hafter
      · exact not_isChoice_node meet (isChoice_linkInto_iff.mp hafter).2

theorem isChoice_linkFromPrologue_iff {l : Layout} :
    (l.linkFromPrologue e).IsChoice ↔ l.branches = true := by
  rw [linkFromPrologue]
  split
  · exact iff_of_true ⟨_, rfl⟩ ‹_›
  · exact iff_of_false (fun h => not_isChoice_node _ (isChoice_linkInto_iff.mp h).2) ‹_›

end Layout

namespace ChapterDraft

variable {e : Edition} {c : ChapterDraft} {l : Layout}

theorem slotted_eq {investigation ending : NodeDraft} (hi : c.investigation = some investigation)
    (he : c.ending = some ending) :
    c.slotted = c.slottedBefore ++ [(.investigation, investigation), (.ending, ending)] := by
  rw [slotted, hi, he, List.append_assoc]
  rfl

/-- The layout branches if the last node of the prologue selects a track. -/
theorem branches_iff (h : c.layout? = some l) : l.branches = true ↔
    c.tracks ≠ [] ∧ ∃ n, c.prologue.getLast? = some n ∧ n.kind = some "choice" ∧
      n.options = [] := by
  obtain ⟨_, _, _, _, _, _, rfl⟩ := layout?_eq_some_iff.mp h
  have hlast : ((Run.ofDrafts c.number .prologue c.prologue).getLast?.any fun last =>
        last.2.kind == some "choice" && last.2.options.isEmpty) =
      c.prologue.getLast?.any fun n => n.kind == some "choice" && n.options.isEmpty := by
    have hdrafts : ((Run.ofDrafts c.number .prologue c.prologue).map Prod.snd).getLast? =
        c.prologue.getLast? := congrArg List.getLast? map_snd_ofDrafts
    rw [← hdrafts, List.getLast?_map, Option.any_map]
  rw [Layout.branches, hlast]
  simp [Option.any_eq_true]

/-- In the prologue only the last node can select a track, and it does if the layout branches. -/
theorem selects_prologue_iff (h : c.layout? = some l) {i : Nat} {n : NodeDraft}
    (hn : c.prologue[i]? = some n) :
    c.Selects (.prologue i) n ↔ i + 1 = c.prologue.length ∧ l.branches = true := by
  have hlt : i < c.prologue.length := (List.getElem?_eq_some_iff.mp hn).1
  rw [branches_iff h]
  constructor
  · rintro ⟨htracks, hslot, hkind, hoptions⟩
    have hi : i = c.prologue.length - 1 := Slot.prologue.inj hslot
    refine ⟨by omega, htracks, n, ?_, hkind, hoptions⟩
    rw [List.getLast?_eq_getElem?, ← hi, hn]
  · rintro ⟨hi, htracks, m, hm, hkind, hoptions⟩
    have hi : i = c.prologue.length - 1 := by omega
    rw [List.getLast?_eq_getElem?, ← hi, hn] at hm
    obtain rfl := Option.some.inj hm
    exact ⟨htracks, by rw [hi], hkind, hoptions⟩

/-- A layout places the nodes of the draft, slot by slot. -/
theorem fits_place (h : c.layout? = some l) :
    List.Forall₂ (fun place p => p.Fits c place.1 place.2) c.slotted (l.place e c.number) := by
  have hselects := fun i n => selects_prologue_iff h (i := i) (n := n)
  obtain ⟨investigation, ending, hi, he, _, _, rfl⟩ := layout?_eq_some_iff.mp h
  rw [slotted_eq hi he, Layout.place_eq]
  refine List.rel_append (List.rel_append ?_ ?_) (.cons ?_ (.cons ?_ .nil))
  · refine Layout.forall₂_placeRun fun i n link hn hlink => ⟨rfl, rfl, rfl, rfl, ?_⟩
    rw [hlink, Layout.isChoice_linkFromPrologue_iff, hselects i n hn]
  · refine Layout.forall₂_placeTracks fun pov i n link hlink => ⟨rfl, rfl, rfl, rfl, ?_⟩
    exact iff_of_false hlink fun h => nomatch h.slot
  · exact ⟨rfl, rfl, rfl, rfl,
      iff_of_false (Layout.not_isChoice_node _) fun h => nomatch h.slot⟩
  · exact ⟨rfl, rfl, rfl, rfl,
      iff_of_false Layout.not_isChoice_linkAfter fun h => nomatch h.slot⟩

/-- In a layout every node has its name of the draft. -/
theorem names_eq (h : c.layout? = some l) : l.names = c.names := by
  -- Only the link of the ending depends on the edition, so any edition shows the names.
  have hfits := fits_place (e := ⟨"", none⟩) h
  rw [← Layout.map_id_place ⟨"", none⟩ c.number l]
  exact (map_eq_map_of_forall₂ hfits fun _ _ hp => hp.id.symm).symm

end ChapterDraft

end BranchingStory
