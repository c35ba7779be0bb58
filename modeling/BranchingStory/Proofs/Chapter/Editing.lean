import BranchingStory.Proofs.Chapter.Change

/-!
# Editing a node

An author who revises a node changes its text, its tags, its speaker or its link.  A bare draft
lacks all four, and a layout does not look at them: placing the nodes commutes with making them bare
(`Layout.place_bare`, `ChapterDraft.layout?_bare`).  So if two drafts differ in one node, and there
in what a bare node lacks, their chapters differ in that node alone, which keeps its name, its kind
and its perspective (`ChapterDraft.sameBut_of_compile`).
-/

namespace BranchingStory

/-! ## Bare drafts -/

/-- The node without its text, its tags, its speaker and its link. -/
def NodeDraft.bare (n : NodeDraft) : NodeDraft :=
  { n with text := ∅, tags := [], speaker := none, next := none }

/-- The track with its nodes bare. -/
def TrackDraft.bare (t : TrackDraft) : TrackDraft := { t with nodes := t.nodes.map NodeDraft.bare }

/-- The chapter with its nodes bare. -/
def ChapterDraft.bare (c : ChapterDraft) : ChapterDraft :=
  { c with
    prologue := c.prologue.map NodeDraft.bare
    tracks := c.tracks.map TrackDraft.bare
    investigation := c.investigation.map NodeDraft.bare
    ending := c.ending.map NodeDraft.bare }

/-- The chapter with the node at one position bare. -/
def ChapterDraft.bareAt (k : Nat) (c : ChapterDraft) : ChapterDraft :=
  c.mapNodes fun i n => if i = k then n.bare else n

/-! ## Placing bare nodes -/

/-- The run with its nodes bare. -/
def Run.bare (run : Run) : Run := run.map fun n => (n.1, n.2.bare)

/-- The placement with its node bare. -/
def Placement.bare (p : Placement) : Placement := { p with draft := p.draft.bare }

theorem Run.ofDrafts_bare (number : Nat) (slot : Nat → Slot) (nodes : List NodeDraft) :
    Run.ofDrafts number slot (nodes.map NodeDraft.bare) =
      (Run.ofDrafts number slot nodes).bare := by
  refine List.ext_getElem? fun i => ?_
  simp only [ofDrafts, bare, List.getElem?_mapIdx, List.getElem?_map, Option.map_map]
  rfl

theorem Run.linkInto_bare (past : Link) (run : Run) :
    Run.linkInto past run.bare = Run.linkInto past run := by
  cases run <;> rfl

namespace Layout

variable {l : Layout} {e : Edition}

/-- The layout with its nodes bare. -/
def bare (l : Layout) : Layout :=
  { prologue := l.prologue.bare
    tracks := l.tracks.map fun t => (t.1.bare, t.2.bare)
    investigation := (l.investigation.1, l.investigation.2.bare)
    ending := (l.ending.1, l.ending.2.bare) }

theorem placeRun_bare (part : Part) (pov : Perspective) (after : Link) (run : Run) :
    placeRun part pov after run.bare = (placeRun part pov after run).map Placement.bare := by
  induction run with
  | nil => rfl
  | cons first rest ih =>
      rw [placeRun, List.map_cons, ← ih, Placement.bare, ← Run.linkInto_bare]
      rfl

theorem firstRun_bare (tracks : List (TrackDraft × Run)) :
    firstRun (tracks.map fun t => (t.1.bare, t.2.bare)) = (firstRun tracks).bare := by
  cases tracks <;> rfl

theorem placeTracks_bare (branches : Bool) (meet : Link) (tracks : List (TrackDraft × Run)) :
    placeTracks branches meet (tracks.map fun t => (t.1.bare, t.2.bare)) =
      (placeTracks branches meet tracks).map Placement.bare := by
  induction tracks with
  | nil => rfl
  | cons t rest ih =>
      rw [List.map_cons, placeTracks, placeTracks, List.map_append, ih, firstRun_bare,
        Run.linkInto_bare, placeRun_bare]
      rfl

theorem branches_bare : l.bare.branches = l.branches := by
  simp only [branches, bare, List.isEmpty_map, Run.bare, List.getLast?_map, Option.any_map]
  rfl

theorem trackOptions_bare (tracks : List (TrackDraft × Run)) :
    trackOptions e (tracks.map fun t => (t.1.bare, t.2.bare)) = trackOptions e tracks := by
  rw [trackOptions, trackOptions, List.filterMap_map]
  refine List.filterMap_congr fun t _ => ?_
  obtain ⟨track, run⟩ := t
  cases run <;> rfl

theorem linkFromPrologue_bare : l.bare.linkFromPrologue e = l.linkFromPrologue e := by
  rw [linkFromPrologue, linkFromPrologue, branches_bare]
  split
  · exact congrArg Link.choice (trackOptions_bare l.tracks)
  · have hfirst : firstRun l.bare.tracks = (firstRun l.tracks).bare := firstRun_bare l.tracks
    rw [hfirst, Run.linkInto_bare]
    rfl

/-- The place of a node does not depend on what a bare node lacks. -/
theorem place_bare (number : Nat) :
    l.bare.place e number = (l.place e number).map Placement.bare := by
  rw [place, place, List.map_append, List.map_append, ← placeRun_bare, ← placeTracks_bare,
    linkFromPrologue_bare, branches_bare]
  rfl

end Layout

namespace ChapterDraft

variable {e : Edition} {c c' : ChapterDraft} {ch ch' : Chapter} {k : Nat}

theorem number_bare (c : ChapterDraft) : c.bare.number = c.number := rfl

theorem layout?_bare (c : ChapterDraft) : c.bare.layout? = c.layout?.map Layout.bare := by
  cases hi : c.investigation with
  | none => simp [layout?, bare, hi]
  | some investigation =>
      cases he : c.ending with
      | none => simp [layout?, bare, hi, he]
      | some ending =>
          have htracks : (c.tracks.map TrackDraft.bare).any (·.nodes.isEmpty) =
              c.tracks.any (·.nodes.isEmpty) := by
            simp [TrackDraft.bare, Function.comp_def]
          have hruns : (c.tracks.map TrackDraft.bare).map
                (fun t => (t, Run.ofDrafts c.number (.track t.pov) t.nodes)) =
              (c.tracks.map fun t => (t, Run.ofDrafts c.number (.track t.pov) t.nodes)).map
                fun t => (t.1.bare, t.2.bare) := by
            rw [List.map_map, List.map_map]
            refine List.map_congr_left fun t _ => ?_
            rw [Function.comp_apply, Function.comp_apply, ← Run.ofDrafts_bare]
            rfl
          simp only [layout?, bare, hi, he, Option.map_some, List.isEmpty_map, htracks, hruns,
            Run.ofDrafts_bare]
          split <;> rfl

/-! ## Edited drafts -/

theorem map_bare_mapIdx {f : Nat → NodeDraft → NodeDraft} (hf : ∀ i n, (f i n).bare = n.bare)
    (nodes : List NodeDraft) : (nodes.mapIdx f).map NodeDraft.bare = nodes.map NodeDraft.bare := by
  rw [map_mapIdx]
  simp only [hf, List.mapIdx_eq_iff, List.getElem?_map, implies_true]

theorem bare_mapTracks {f : Nat → NodeDraft → NodeDraft} (hf : ∀ i n, (f i n).bare = n.bare)
    (start : Nat) (tracks : List TrackDraft) :
    (mapTracks f start tracks).map TrackDraft.bare = tracks.map TrackDraft.bare := by
  induction tracks generalizing start with
  | nil => rfl
  | cons t rest ih =>
      rw [mapTracks, List.map_cons, List.map_cons, ih, TrackDraft.bare,
        map_bare_mapIdx fun i => hf (start + i)]
      rfl

/-- A change of what a bare node lacks does not show in the bare draft. -/
theorem bare_mapNodes {f : Nat → NodeDraft → NodeDraft} (hf : ∀ i n, (f i n).bare = n.bare) :
    (c.mapNodes f).bare = c.bare := by
  rw [bare, bare, mapNodes]
  simp only [map_bare_mapIdx hf, bare_mapTracks hf, Option.map_map, Function.comp_def, hf]

theorem bare_bareAt : (c.bareAt k).bare = c.bare := by
  refine bare_mapNodes fun i n => ?_
  split <;> rfl

/-- Drafts that differ at one position have the same nodes at every other. -/
theorem slotted_eq_of_bareAt (hdiff : c.bareAt k = c'.bareAt k) {i : Nat} (hi : i ≠ k) :
    c.slotted[i]? = c'.slotted[i]? := by
  have hsame : ∀ c : ChapterDraft, (c.bareAt k).slotted[i]? = c.slotted[i]? := by
    intro c
    simp only [bareAt, slotted_mapNodes, List.getElem?_mapIdx, if_neg hi]
    exact Option.map_id'
  rw [← hsame c, ← hsame c', hdiff]

theorem bare_eq_of_bareAt (hdiff : c.bareAt k = c'.bareAt k) : c.bare = c'.bare := by
  rw [← bare_bareAt (c := c) (k := k), hdiff, bare_bareAt]

end ChapterDraft

/-! ## Edited chapters -/

/-- The nodes have one name, one kind and one perspective. -/
structure Node.SameRole (n n' : Node) : Prop where
  id : n'.id = n.id
  kind : n'.kind = n.kind
  pov : n'.pov = n.pov

/-- The second chapter differs from the first in one node at most, and the node keeps its name, its
kind and its perspective. -/
structure Chapter.SameBut (k : Nat) (ch ch' : Chapter) : Prop where
  number : ch'.number = ch.number
  title : ch'.title = ch.title
  entry : ch'.entry = ch.entry
  tracks : ch'.tracks = ch.tracks
  nodes : List.Forall₂ Node.SameRole ch.nodes ch'.nodes
  others : ∀ i, i ≠ k → ch'.nodes[i]? = ch.nodes[i]?

namespace Placement

variable {p p' : Placement} {n n' : Node}

theorem kind?_bare : p.bare.kind? = p.kind? := rfl

theorem eq_of_bare (hbare : p.bare = p'.bare) (hdraft : p.draft = p'.draft) : p = p' := by
  cases p
  cases p'
  simp_all [bare]

/-- A node has its name, its kind and its perspective from its bare placement. -/
theorem sameRole_of_bare (hbare : p.bare = p'.bare) (h : p.node? = some n)
    (h' : p'.node? = some n') : n.SameRole n' := by
  obtain ⟨kind, hkind, rfl⟩ := node?_eq_some_iff.mp h
  obtain ⟨kind', hkind', rfl⟩ := node?_eq_some_iff.mp h'
  have hkinds : p.bare.kind? = p'.bare.kind? := congrArg kind? hbare
  rw [kind?_bare, kind?_bare, hkind, hkind'] at hkinds
  exact ⟨(congrArg Placement.id hbare).symm, (Option.some.inj hkinds).symm,
    (congrArg Placement.pov hbare).symm⟩

end Placement

namespace ChapterDraft

variable {e : Edition} {c c' : ChapterDraft} {ch ch' : Chapter} {l l' : Layout} {k : Nat}

theorem map_bare_place (hbare : c.bare = c'.bare) (h : c.layout? = some l)
    (h' : c'.layout? = some l') : (l.place e c.number).map Placement.bare =
      (l'.place e c'.number).map Placement.bare := by
  have hnumber : c.bare.number = c'.bare.number := congrArg number hbare
  have hlayout : l.bare = l'.bare := by
    have hfound := congrArg layout? hbare
    rw [layout?_bare, layout?_bare, h, h'] at hfound
    exact Option.some.inj hfound
  rw [← Layout.place_bare, ← Layout.place_bare, hlayout, ← number_bare, hnumber, number_bare]

theorem map_draft_place (h : c.layout? = some l) :
    (l.place e c.number).map Placement.draft = c.slotted.map Prod.snd :=
  (map_eq_map_of_forall₂ (fits_place h) fun _ _ hp => hp.draft.symm).symm

/-- Drafts that differ at one position place their other nodes alike. -/
theorem getElem?_place_of_bareAt (hdiff : c.bareAt k = c'.bareAt k) (h : c.layout? = some l)
    (h' : c'.layout? = some l') {i : Nat} (hi : i ≠ k) :
    (l.place e c.number)[i]? = (l'.place e c'.number)[i]? := by
  have hdrafts : ((l.place e c.number)[i]?).map Placement.draft =
      ((l'.place e c'.number)[i]?).map Placement.draft := by
    rw [← List.getElem?_map, ← List.getElem?_map, map_draft_place h, map_draft_place h',
      List.getElem?_map, List.getElem?_map, slotted_eq_of_bareAt hdiff hi]
  -- The bare placements agree everywhere, so what is left to compare is the drafts.
  have hbare : ((l.place e c.number)[i]?).map Placement.bare =
      ((l'.place e c'.number)[i]?).map Placement.bare := by
    rw [← List.getElem?_map, ← List.getElem?_map, map_bare_place (bare_eq_of_bareAt hdiff) h h']
  cases hp : (l.place e c.number)[i]? with
  | none =>
      rw [hp] at hbare
      exact (Option.map_eq_none_iff.mp hbare.symm).symm
  | some p =>
      rw [hp, Option.map_some] at hbare hdrafts
      obtain ⟨p', hp', hsame⟩ := Option.map_eq_some_iff.mp hbare.symm
      rw [hp', Option.map_some] at hdrafts
      rw [hp', Placement.eq_of_bare hsame.symm (Option.some.inj hdrafts)]

/-- A compiled chapter has a node for each placement. -/
theorem exists_placed_of_compile (h : c.compile e = .ok ch) : ∃ l, c.layout? = some l ∧
    List.Forall₂ (fun p n => p.node? = some n) (l.place e c.number) ch.nodes := by
  obtain ⟨l, hlayout, _, hclean, _, rfl⟩ := compile_eq_ok_iff.mp h
  refine ⟨l, hlayout, forall₂_filterMap (List.forall₂_same.mpr fun p _ => Eq.refl p) ?_⟩
  rintro p _ hp rfl
  obtain ⟨n, hn, _⟩ := Placement.exists_node_of_problems_eq_nil (hclean p hp)
  exact ⟨n, hn, hn⟩

/-- An edit leaves every node its name, its kind and its perspective. -/
theorem forall₂_sameRole_of_compile (hbare : c.bare = c'.bare) (h : c.compile e = .ok ch)
    (h' : c'.compile e = .ok ch') :
    List.Forall₂ Node.SameRole ch.nodes ch'.nodes := by
  obtain ⟨l, hlayout, hplaced⟩ := exists_placed_of_compile h
  obtain ⟨l', hlayout', hplaced'⟩ := exists_placed_of_compile h'
  have hplaces := map_bare_place (e := e) hbare hlayout hlayout'
  rw [← List.forall₂_eq_eq_eq, List.forall₂_map_left_iff, List.forall₂_map_right_iff] at hplaces
  -- The nodes of the first chapter, side by side with the places of the second.
  have hmixed := forall₂_of_forall₂ hplaced hplaces (T := fun n p' =>
    ∃ p : Placement, p.bare = p'.bare ∧ p.node? = some n) fun p _ _ hn hp => ⟨p, hp, hn⟩
  refine forall₂_of_forall₂ hmixed.flip hplaced' ?_
  rintro p' n n' ⟨p, hp, hn⟩ hn'
  exact Placement.sameRole_of_bare hp hn hn'

/-- Two drafts that differ in the text, the tags, the speaker and the link of one node compile to
chapters that differ in this node alone. -/
theorem sameBut_of_compile (hdiff : c.bareAt k = c'.bareAt k) (h : c.compile e = .ok ch)
    (h' : c'.compile e = .ok ch') : ch.SameBut k ch' := by
  have hbare : c.bare = c'.bare := bare_eq_of_bareAt hdiff
  have hnumber : c'.number = c.number := congrArg (fun c => c.number) hbare.symm
  have htitle : c'.title = c.title := congrArg (fun c => c.title) hbare.symm
  have hpovs : c'.tracks.map TrackDraft.pov = c.tracks.map TrackDraft.pov := by
    have htracks := congrArg (fun c => c.tracks.map TrackDraft.pov) hbare
    simpa [bare, TrackDraft.bare, Function.comp_def] using htracks.symm
  have hnodes := forall₂_sameRole_of_compile hbare h h'
  exact
    { number := by rw [number_of_compile h, number_of_compile h', hnumber]
      title := by rw [title_of_compile h, title_of_compile h', htitle]
      entry := by rw [entry_of_compile h, entry_of_compile h', hnumber]
      tracks := tracks_congr_of_compile h h' hpovs (hnodes.imp fun _ _ hn => ⟨hn.id, hn.pov⟩)
      nodes := hnodes
      others := by
        intro i hi
        obtain ⟨l, hlayout, hplaced⟩ := exists_placed_of_compile h
        obtain ⟨l', hlayout', hplaced'⟩ := exists_placed_of_compile h'
        rw [getElem?_of_forall₂ hplaced, getElem?_of_forall₂ hplaced',
          getElem?_place_of_bareAt hdiff hlayout hlayout' hi] }

/-- The first night with another opening, which a speaker reads and which skips the choice. -/
def rewrittenNight : ChapterDraft where
  number := 1
  title := firstNight.title
  prologue :=
    { kind := some "dialogue", speaker := some "maid", text := english "A cry.", tags := ["night"],
      next := some (.node "CH1_CONSORT_001") } :: firstNight.prologue.tail
  tracks := firstNight.tracks
  investigation := firstNight.investigation
  ending := firstNight.ending

theorem sameBut_of_compile_rewrittenNight :
    ∃ ch ch', firstNight.compile ⟨"english", none⟩ = .ok ch ∧
      rewrittenNight.compile ⟨"english", none⟩ = .ok ch' ∧
      firstNight.bareAt 0 = rewrittenNight.bareAt 0 ∧ ch.SameBut 0 ch' := by
  have hcompile : ∃ ch, firstNight.compile ⟨"english", none⟩ = .ok ch := ⟨_, rfl⟩
  have hcompile' : ∃ ch', rewrittenNight.compile ⟨"english", none⟩ = .ok ch' := ⟨_, rfl⟩
  obtain ⟨ch, hch⟩ := hcompile
  obtain ⟨ch', hch'⟩ := hcompile'
  have hdiff : firstNight.bareAt 0 = rewrittenNight.bareAt 0 := rfl
  exact ⟨ch, ch', hch, hch', hdiff, sameBut_of_compile hdiff hch hch'⟩

end ChapterDraft

end BranchingStory
