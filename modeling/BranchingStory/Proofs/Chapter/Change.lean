import BranchingStory.Proofs.Chapter.Shape

/-!
# Changing the nodes of a draft

A change goes through the nodes of a draft by position, in the order of reading, and leaves the
outline as it is (`ChapterDraft.mapNodes`, `ChapterDraft.slotted_mapNodes`).  What has a changed
draft accepted is up to its nodes (`ChapterDraft.exists_compile_mapNodes`), and so is everything in
a compiled chapter but its number, its title and the perspectives of its tracks
(`ChapterDraft.ext_of_compile`).
-/

namespace BranchingStory

namespace ChapterDraft

variable {c : ChapterDraft} {f : Nat → NodeDraft → NodeDraft}

/-- The tracks with every node changed by its position, which is counted from `start`. -/
def mapTracks (f : Nat → NodeDraft → NodeDraft) : Nat → List TrackDraft → List TrackDraft
  | _, [] => []
  | start, t :: rest =>
      { t with nodes := t.nodes.mapIdx fun i => f (start + i) }
        :: mapTracks f (start + t.nodes.length) rest

/-- The chapter with every node changed by its position in the order of reading. -/
def mapNodes (f : Nat → NodeDraft → NodeDraft) (c : ChapterDraft) : ChapterDraft :=
  { c with
    prologue := c.prologue.mapIdx f
    tracks := mapTracks f c.prologue.length c.tracks
    investigation := c.investigation.map (f c.slottedBefore.length)
    ending := c.ending.map (f (c.slottedBefore.length + c.investigation.toList.length)) }

theorem flatMap_mapTracks (start : Nat) (tracks : List TrackDraft) :
    ((mapTracks f start tracks).flatMap fun t =>
        t.nodes.mapIdx fun i n => (Slot.track t.pov i, n)) =
      (tracks.flatMap fun t => t.nodes.mapIdx fun i n => (Slot.track t.pov i, n)).mapIdx
        fun i place => (place.1, f (start + i) place.2) := by
  induction tracks generalizing start with
  | nil => rfl
  | cons t rest ih =>
      rw [mapTracks, List.flatMap_cons, List.flatMap_cons, List.mapIdx_append, ih,
        List.mapIdx_mapIdx, List.mapIdx_mapIdx, List.length_mapIdx]
      refine congrArg _ (congrArg (List.mapIdx · _) ?_)
      funext i place
      rw [Nat.add_assoc, Nat.add_comm i]

theorem slottedBefore_mapNodes : (c.mapNodes f).slottedBefore =
    c.slottedBefore.mapIdx fun i place => (place.1, f i place.2) := by
  rw [slottedBefore, slottedBefore, mapNodes, flatMap_mapTracks, List.mapIdx_append,
    List.mapIdx_mapIdx, List.mapIdx_mapIdx, List.length_mapIdx]
  refine congrArg _ (congrArg (List.mapIdx · _) ?_)
  funext i place
  rw [Nat.add_comm i]

/-- The change goes through the nodes in the order of reading. -/
theorem slotted_mapNodes : (c.mapNodes f).slotted =
    c.slotted.mapIdx fun i place => (place.1, f i place.2) := by
  rw [slotted, slotted, slottedBefore_mapNodes, List.mapIdx_append, List.mapIdx_append]
  cases hi : c.investigation <;> cases he : c.ending <;> simp [mapNodes, hi, he]

theorem forall₂_mapTracks (start : Nat) (tracks : List TrackDraft) :
    List.Forall₂ (fun t t' => t'.pov = t.pov ∧ t'.nodes.length = t.nodes.length) tracks
      (mapTracks f start tracks) := by
  induction tracks generalizing start with
  | nil => exact .nil
  | cons t rest ih => exact .cons ⟨rfl, List.length_mapIdx⟩ (ih _)

theorem map_pov_mapNodes : (c.mapNodes f).tracks.map TrackDraft.pov = c.tracks.map TrackDraft.pov :=
  (map_eq_map_of_forall₂ (forall₂_mapTracks _ _) fun _ _ h => h.1.symm).symm

/-- A change of the nodes that leaves them their names and keeps to the rules is accepted. -/
theorem exists_compile_mapNodes {e e' : Edition} {ch : Chapter} (h : c.compile e = .ok ch)
    (hreference : e'.reference = e.reference) (hnames : (c.mapNodes f).names = c.names)
    (hrules : ∀ place ∈ (c.mapNodes f).slotted, ∃ kind,
      place.2.WellFormed e'.reference (c.mapNodes f) place.1 kind) :
    ∃ ch', (c.mapNodes f).compile e' = .ok ch' := by
  obtain ⟨l, hlayout, houtline, hclean, hids, _⟩ := compile_eq_ok_iff.mp h
  obtain ⟨htitle, hprologue, ⟨hpovs, htracks⟩, hinvestigation, hending⟩ :=
    outlineProblems_eq_nil_iff.mp houtline
  have hprologue' : (c.mapNodes f).prologue ≠ [] := by simpa [mapNodes] using hprologue
  have htracks' : ∀ t ∈ (c.mapNodes f).tracks,
      (Text.isBlank t.pov = false ∧ t.pov ≠ "all") ∧ t.nodes ≠ [] := by
    refine (forall_mem_iff_of_forall₂ (forall₂_mapTracks _ _) ?_).mp htracks
    rintro t t' ⟨hpov, hlength⟩
    rw [hpov, ← List.length_pos_iff, ← List.length_pos_iff, hlength]
  have hinvestigation' : (c.mapNodes f).investigation ≠ none := by
    simpa [mapNodes] using hinvestigation
  have hending' : (c.mapNodes f).ending ≠ none := by simpa [mapNodes] using hending
  obtain ⟨l', hlayout'⟩ :=
    exists_layout hprologue' (fun t ht => (htracks' t ht).2) hinvestigation' hending'
  have hpovs' : ((c.mapNodes f).tracks.map TrackDraft.pov).Nodup := by rwa [map_pov_mapNodes]
  have houtline' : (c.mapNodes f).outlineProblems e' = [] :=
    outlineProblems_eq_nil_iff.mpr
      ⟨hreference ▸ htitle, hprologue', ⟨hpovs', htracks'⟩, hinvestigation', hending'⟩
  have hclean' := (clean_iff hlayout').mpr hrules
  refine ⟨_, compile_eq_ok_iff.mpr ⟨l', hlayout', houtline', hclean', ?_, rfl⟩⟩
  rw [ids_assemble hclean', names_eq hlayout', hnames, ← names_eq hlayout, ← ids_assemble hclean]
  exact hids

/-! ## Equal chapters -/

variable {c' : ChapterDraft} {e e' : Edition} {ch ch' : Chapter}

/-- A track lists the nodes of its perspective. -/
theorem tracks_eq_of_compile (h : c.compile e = .ok ch) :
    ch.tracks = (c.tracks.map TrackDraft.pov).map fun pov =>
      ⟨pov, (ch.nodes.filter (·.pov = .track pov)).map Node.id⟩ := by
  rw [tracks_of_compile h, List.map_map]
  exact List.map_congr_left fun t ht =>
    congrArg (Track.mk t.pov) (renders_track_of_compile h ht).seen

/-- Chapters with the same perspectives have the same tracks if their nodes have the same names and
perspectives. -/
theorem tracks_congr_of_compile (h : c.compile e = .ok ch) (h' : c'.compile e' = .ok ch')
    (hpovs : c'.tracks.map TrackDraft.pov = c.tracks.map TrackDraft.pov)
    (hnodes : List.Forall₂ (fun n n' => n'.id = n.id ∧ n'.pov = n.pov) ch.nodes ch'.nodes) :
    ch'.tracks = ch.tracks := by
  rw [tracks_eq_of_compile h, tracks_eq_of_compile h', hpovs]
  refine List.map_congr_left fun pov _ => congrArg (Track.mk pov) ?_
  have hseen := List.rel_filter (p := fun n => n.pov = .track pov)
    (q := fun n => n.pov = .track pov) (fun _ _ hn => by simp [hn.2]) hnodes
  exact (map_eq_map_of_forall₂ hseen fun _ _ hn => hn.1.symm).symm

/-- Drafts of one number, title and list of perspectives compile to one chapter if they compile to
the same nodes. -/
theorem ext_of_compile (h : c.compile e = .ok ch) (h' : c'.compile e' = .ok ch')
    (hnumber : c'.number = c.number) (htitle : c'.title = c.title)
    (hpovs : c'.tracks.map TrackDraft.pov = c.tracks.map TrackDraft.pov)
    (hnodes : ch'.nodes = ch.nodes) : ch' = ch := by
  have hnumber' : ch'.number = ch.number := by
    rw [number_of_compile h, number_of_compile h', hnumber]
  have htitle' : ch'.title = ch.title := by rw [title_of_compile h, title_of_compile h', htitle]
  have hentry : ch'.entry = ch.entry := by rw [entry_of_compile h, entry_of_compile h', hnumber]
  have htracks : ch'.tracks = ch.tracks :=
    tracks_congr_of_compile h h' hpovs (hnodes ▸ List.forall₂_same.mpr fun _ _ => ⟨rfl, rfl⟩)
  cases ch
  cases ch'
  simp_all

end ChapterDraft

end BranchingStory
