import BranchingStory.Proofs.Chapter.Reported
import BranchingStory.Proofs.Chapter.Shape
import BranchingStory.Proofs.Story.Naming

/-!
# Labels of perspectives

An author who names no node leaves it to the compiler to tell the nodes apart.  The names from the
slots do that but for one thing: a perspective goes into a name by its label, in capital letters
and with an underscore for whatever is no letter or digit, so perspectives that are spelled
differently may have the same label.  Then the first nodes of their tracks have the same name.
Without such tracks all names are distinct (`ChapterDraft.nodup_names_iff`).  So a draft without
names that follows all other rules is refused exactly for two tracks of one label, and what its
author is told is the name that repeats (`names_collide_by_label`).
-/

namespace BranchingStory

theorem pairwise_mapIdx {α β : Type} {R : β → β → Prop} {f : Nat → α → β} {l : List α}
    (h : ∀ i j a b, i < j → R (f i a) (f j b)) : (l.mapIdx f).Pairwise R := by
  rw [List.pairwise_iff_getElem]
  intro i j hi hj hij
  rw [List.getElem_mapIdx, List.getElem_mapIdx]
  exact h i j _ _ hij

namespace ChapterDraft

/-- The author named no node. -/
def Unnamed (c : ChapterDraft) : Prop := ∀ place ∈ c.slotted, place.2.id = none

/-- The labels of the perspectives, track by track. -/
def labels (c : ChapterDraft) : List String := c.tracks.map fun t => povLabel t.pov

variable {e : Edition} {c : ChapterDraft} {l : Layout} {t t' : TrackDraft}

/-! ## Names of unnamed nodes -/

theorem nameAt_eq_iff {n n' : NodeDraft} {number number' : Nat} {slot slot' : Slot}
    (h : n.id = none) (h' : n'.id = none) : n.nameAt number slot = n'.nameAt number' slot' ↔
      number = number' ∧ slot.Alike slot' := by
  rw [NodeDraft.nameAt, NodeDraft.nameAt, h, h', Option.getD_none, Option.getD_none,
    Slot.nodeName_eq_iff]

/-- Tracks of different labels share no name, and with nodes on them those of one label do. -/
theorem forall_not_alike_iff (ht : t.nodes ≠ []) (ht' : t'.nodes ≠ []) :
    (∀ place ∈ t.nodes.mapIdx fun i n => (Slot.track t.pov i, n),
      ∀ place' ∈ t'.nodes.mapIdx fun i n => (Slot.track t'.pov i, n),
        ¬ place.1.Alike place'.1) ↔ povLabel t.pov ≠ povLabel t'.pov := by
  constructor
  · intro h hlabel
    obtain ⟨n, rest, hnodes⟩ := List.exists_cons_of_ne_nil ht
    obtain ⟨n', rest', hnodes'⟩ := List.exists_cons_of_ne_nil ht'
    rw [hnodes, hnodes', List.mapIdx_cons, List.mapIdx_cons] at h
    exact h (.track t.pov 0, n) (.head _) (.track t'.pov 0, n') (.head _) (.track hlabel 0)
  · intro hne place hplace place' hplace' halike
    obtain ⟨_, _, rfl⟩ := List.mem_mapIdx.mp hplace
    obtain ⟨_, _, rfl⟩ := List.mem_mapIdx.mp hplace'
    cases halike with
    | track hlabel _ => exact hne hlabel

/-- In a row of slots none is like another if the positions tell them apart. -/
theorem pairwise_not_alike {nodes : List NodeDraft} {slot : Nat → Slot}
    (h : ∀ i j, (slot i).Alike (slot j) → i = j) :
    (nodes.mapIdx fun i n => (slot i, n)).Pairwise
      fun place place' => ¬ place.1.Alike place'.1 := by
  refine pairwise_mapIdx fun i j _ _ hij halike => ?_
  exact absurd (h i j halike) hij.ne

theorem pairwise_slottedBefore_iff (hfilled : ∀ t ∈ c.tracks, t.nodes ≠ []) :
    c.slottedBefore.Pairwise (fun place place' => ¬ place.1.Alike place'.1) ↔
      c.labels.Nodup := by
  have hprologue : (c.prologue.mapIdx fun i n => (Slot.prologue i, n)).Pairwise
      fun place place' => ¬ place.1.Alike place'.1 :=
    pairwise_not_alike fun i j halike => by cases halike; rfl
  have htrack : ∀ t ∈ c.tracks, (t.nodes.mapIdx fun i n => (Slot.track t.pov i, n)).Pairwise
      fun place place' => ¬ place.1.Alike place'.1 :=
    fun t _ => pairwise_not_alike fun i j halike => by cases halike; rfl
  have hacross := List.Pairwise.iff_of_mem fun {t t'} ht ht' =>
    forall_not_alike_iff (hfilled t ht) (hfilled t' ht')
  rw [slottedBefore, List.pairwise_append, List.pairwise_flatMap, hacross, labels, List.Nodup,
    List.pairwise_map]
  refine ⟨fun h => h.2.1.2, fun h => ⟨hprologue, ⟨htrack, h⟩, ?_⟩⟩
  intro place hplace place' hplace' halike
  obtain ⟨_, _, rfl⟩ := List.mem_mapIdx.mp hplace
  obtain ⟨_, _, hplace'⟩ := List.mem_flatMap.mp hplace'
  obtain ⟨_, _, rfl⟩ := List.mem_mapIdx.mp hplace'
  cases halike

/-- No slot before the investigation is like the last two. -/
theorem not_alike_of_mem_slottedBefore {place : Slot × NodeDraft} (h : place ∈ c.slottedBefore) :
    ¬ place.1.Alike .investigation ∧ ¬ place.1.Alike .ending := by
  have hslot := mem_slottedBefore_iff.mp h
  constructor
  · intro halike
    rcases hslot with ⟨_, _, _, rfl⟩ | ⟨_, _, _, _, _, rfl⟩ <;> cases halike
  · intro halike
    rcases hslot with ⟨_, _, _, rfl⟩ | ⟨_, _, _, _, _, rfl⟩ <;> cases halike

/-- The last two slots are like no other, so the slots before them decide. -/
theorem pairwise_slotted_iff : c.slotted.Pairwise (fun place place' => ¬ place.1.Alike place'.1) ↔
    c.slottedBefore.Pairwise fun place place' => ¬ place.1.Alike place'.1 := by
  rw [slotted, List.pairwise_append, List.pairwise_append]
  refine ⟨fun h => h.1.1, fun h => ⟨⟨h, ?_, ?_⟩, ?_, ?_⟩⟩
  · cases c.investigation <;> simp
  · intro place hplace place' hplace'
    simp only [Option.mem_toList, Option.map_eq_some_iff] at hplace'
    obtain ⟨_, _, rfl⟩ := hplace'
    exact (not_alike_of_mem_slottedBefore hplace).1
  · cases c.ending <;> simp
  · intro place hplace place' hplace'
    simp only [List.mem_append, Option.mem_toList, Option.map_eq_some_iff] at hplace hplace'
    obtain ⟨_, _, rfl⟩ := hplace'
    obtain hplace | ⟨_, _, rfl⟩ := hplace
    · exact (not_alike_of_mem_slottedBefore hplace).2
    · intro halike
      cases halike

/-- Without names of its own a draft has distinct names exactly if its tracks have distinct
labels. -/
theorem nodup_names_iff (hunnamed : c.Unnamed) (hfilled : ∀ t ∈ c.tracks, t.nodes ≠ []) :
    c.names.Nodup ↔ c.labels.Nodup := by
  rw [← pairwise_slottedBefore_iff hfilled, ← pairwise_slotted_iff, names, List.Nodup,
    List.pairwise_map]
  refine List.Pairwise.iff_of_mem fun {place place'} hplace hplace' => not_congr ?_
  rw [nameAt_eq_iff (hunnamed place hplace) (hunnamed place' hplace')]
  exact and_iff_right rfl

/-! ## Drafts that follow all other rules -/

/-- The rules for a chapter but for the one that names are distinct. -/
structure Regular (c : ChapterDraft) (reference : String) : Prop where
  title : c.title.contains reference = true
  prologue : c.prologue ≠ []
  povs : (c.tracks.map TrackDraft.pov).Nodup
  named : ∀ t ∈ c.tracks, Text.isBlank t.pov = false ∧ t.pov ≠ "all"
  filled : ∀ t ∈ c.tracks, t.nodes ≠ []
  investigation : c.investigation ≠ none
  ending : c.ending ≠ none
  nodes : ∀ place ∈ c.slotted, ∃ kind, place.2.WellFormed reference c place.1 kind

theorem wellFormed_iff_regular {reference : String} :
    c.WellFormed reference ↔ c.Regular reference ∧ c.names.Nodup := by
  constructor
  · rintro ⟨htitle, hprologue, hpovs, hnamed, hfilled, hinvestigation, hending, hnodes, hnames⟩
    exact ⟨⟨htitle, hprologue, hpovs, hnamed, hfilled, hinvestigation, hending, hnodes⟩, hnames⟩
  · rintro ⟨⟨htitle, hprologue, hpovs, hnamed, hfilled, hinvestigation, hending, hnodes⟩, hnames⟩
    exact ⟨htitle, hprologue, hpovs, hnamed, hfilled, hinvestigation, hending, hnodes, hnames⟩

/-- With a layout these are the rules that have nothing reported. -/
theorem regular_iff (h : c.layout? = some l) :
    c.Regular e.reference ↔ c.outlineProblems e = [] ∧ l.Clean e c.number := by
  obtain ⟨hprologue, hfilled, hinvestigation, hending⟩ := complete_iff.mpr ⟨l, h⟩
  rw [clean_iff h, outlineProblems_eq_nil_iff]
  constructor
  · intro hregular
    exact ⟨⟨hregular.title, hprologue, ⟨hregular.povs, fun t ht =>
      ⟨hregular.named t ht, hfilled t ht⟩⟩, hinvestigation, hending⟩, hregular.nodes⟩
  · rintro ⟨⟨htitle, _, ⟨hpovs, htracks⟩, _, _⟩, hnodes⟩
    exact ⟨htitle, hprologue, hpovs, fun t ht => (htracks t ht).1, hfilled, hinvestigation,
      hending, hnodes⟩

/-- A draft that breaks no other rule gets as far as to the names of its nodes. -/
theorem exists_layout_of_regular (h : c.Regular e.reference) :
    ∃ l, c.layout? = some l ∧ c.outlineProblems e = [] ∧ l.Clean e c.number ∧
      (c.assemble e l).ids = c.names := by
  obtain ⟨l, hlayout⟩ := exists_layout h.prologue h.filled h.investigation h.ending
  obtain ⟨houtline, hclean⟩ := (regular_iff hlayout).mp h
  exact ⟨l, hlayout, houtline, hclean, by rw [ids_assemble hclean, names_eq hlayout]⟩

/-- It is refused for the first name that repeats. -/
theorem compile_eq_error_of_regular (h : c.Regular e.reference) (hrepeat : ¬ c.names.Nodup) :
    ∃ id, 2 ≤ c.names.count id ∧
      c.compile e = .error [c.problem "id" (RepeatedName.node id).message] := by
  obtain ⟨l, hlayout, houtline, hclean, hids⟩ := exists_layout_of_regular h
  have hproblems : c.outlineProblems e
      ++ (l.place e c.number).flatMap (Placement.problems e c.number) = [] := by
    rw [houtline, List.flatMap_eq_nil_iff.mpr hclean]
    rfl
  have hname : (c.assemble e l).repeatedName? = (firstRepeat? c.names).map .node := by
    rw [Chapter.repeatedName?, hids]
  obtain ⟨id, hid⟩ := Option.ne_none_iff_exists'.mp (mt firstRepeat?_eq_none_iff.mp hrepeat)
  refine ⟨id, two_le_count_of_firstRepeat? hid, ?_⟩
  rw [compile, hlayout]
  simp only [hproblems, hname, hid, Option.map_some]

/-- It is accepted if no name repeats. -/
theorem exists_compile_of_regular (h : c.Regular e.reference) (hnames : c.names.Nodup) :
    ∃ ch, c.compile e = .ok ch := by
  obtain ⟨l, hlayout, houtline, hclean, hids⟩ := exists_layout_of_regular h
  exact ⟨_, compile_eq_ok_iff.mpr ⟨l, hlayout, houtline, hclean, hids ▸ hnames, rfl⟩⟩

end ChapterDraft

/-! ## Main result -/

/-- Names given by position collide through the labels of perspectives alone, and never across
chapters.  A draft without names that follows all other rules is refused exactly if two of its
tracks have one label, and then for a name that repeats. -/
theorem names_collide_by_label :
    (∀ chapter chapter' slot slot', Slot.nodeName chapter slot = Slot.nodeName chapter' slot' ↔
      chapter = chapter' ∧ slot.Alike slot') ∧
    (∀ c d : ChapterDraft, c.number ≠ d.number →
      ∀ place ∈ c.slotted, ∀ place' ∈ d.slotted, place.2.id = none → place'.2.id = none →
        place.2.nameAt c.number place.1 ≠ place'.2.nameAt d.number place'.1) ∧
    (∀ (c : ChapterDraft) reference,
      c.WellFormed reference ↔ c.Regular reference ∧ c.names.Nodup) ∧
    ∀ (c : ChapterDraft) (e : Edition), c.Unnamed → c.Regular e.reference →
      ((∃ problems, c.compile e = .error problems) ↔ ¬ c.labels.Nodup) ∧
      ∀ problems, c.compile e = .error problems → ∃ id, 2 ≤ c.names.count id ∧
        problems = [c.problem "id" ("duplicate node id '" ++ id ++ "'")] := by
  refine ⟨fun _ _ _ _ => Slot.nodeName_eq_iff, ?_, fun _ _ => ChapterDraft.wellFormed_iff_regular,
    ?_⟩
  · intro c d hnumber place _ place' _ h h' heq
    exact hnumber ((ChapterDraft.nameAt_eq_iff h h').mp heq).1
  · intro c e hunnamed hregular
    have hnames := ChapterDraft.nodup_names_iff hunnamed hregular.filled
    have hrefused : ∀ problems, c.compile e = .error problems → ¬ c.names.Nodup := by
      intro problems hcompile hnodup
      obtain ⟨_, hch⟩ := ChapterDraft.exists_compile_of_regular hregular hnodup
      rw [hch] at hcompile
      cases hcompile
    constructor
    · constructor
      · rintro ⟨problems, hcompile⟩
        exact mt hnames.mpr (hrefused problems hcompile)
      · intro hlabels
        obtain ⟨_, _, hcompile⟩ :=
          ChapterDraft.compile_eq_error_of_regular hregular (mt hnames.mp hlabels)
        exact ⟨_, hcompile⟩
    · intro problems hcompile
      obtain ⟨id, hcount, hcompile'⟩ :=
        ChapterDraft.compile_eq_error_of_regular hregular (hrefused problems hcompile)
      exact ⟨id, hcount, Except.error.inj (hcompile.symm.trans hcompile')⟩

/-- Two watchmen of the night whose names differ in a hyphen. -/
def watchmenNight : ChapterDraft where
  number := 1
  title := firstNight.title
  prologue := firstNight.prologue.map fun n => { n with id := none }
  tracks :=
    [{ pov := "night watch", nodes := [{ kind := some "dialogue", text := english "Midnight." }] },
      { pov := "night-watch", nodes := [{ kind := some "dialogue", text := english "Halt." }] }]
  investigation := firstNight.investigation
  ending := firstNight.ending

/-- The compiler refuses the watchmen of one chapter for a name that they share.  Across chapters
no names are shared. -/
theorem names_collide_by_label_watchmen :
    (watchmenNight.Unnamed ∧ watchmenNight.Regular "english" ∧ ¬ watchmenNight.labels.Nodup) ∧
    (∃ id, 2 ≤ watchmenNight.names.count id ∧ watchmenNight.compile ⟨"english", none⟩ =
      .error [watchmenNight.problem "id" ("duplicate node id '" ++ id ++ "'")]) ∧
    ∀ place ∈ watchmenNight.slotted, ∀ place' ∈ secondNight.slotted,
      place.2.nameAt 1 place.1 ≠ place'.2.nameAt 2 place'.1 := by
  have hunnamed : watchmenNight.Unnamed := by
    unfold ChapterDraft.Unnamed
    decide
  have hunnamed' : secondNight.Unnamed := by
    unfold ChapterDraft.Unnamed
    decide
  have hregular : watchmenNight.Regular "english" :=
    (ChapterDraft.regular_iff (e := ⟨"english", none⟩) rfl).mpr
      ⟨by decide, by unfold Layout.Clean; decide⟩
  have hlabels : ¬ watchmenNight.labels.Nodup := by decide
  obtain ⟨_, hacross, _, hcompile⟩ := names_collide_by_label
  obtain ⟨hrefused, hproblem⟩ := hcompile watchmenNight ⟨"english", none⟩ hunnamed hregular
  obtain ⟨problems, hproblems⟩ := hrefused.mpr hlabels
  obtain ⟨id, hcount, rfl⟩ := hproblem problems hproblems
  exact ⟨⟨hunnamed, hregular, hlabels⟩, ⟨id, hcount, hproblems⟩,
    fun place hplace place' hplace' => hacross watchmenNight secondNight (by decide)
      place hplace place' hplace' (hunnamed place hplace) (hunnamed' place' hplace')⟩

end BranchingStory
