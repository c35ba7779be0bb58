import BranchingStory.Proofs.Chapter.Slots

/-!
# Well-formed chapters

The rules that an author has to follow, said of a draft alone: what the outline needs, what each
node needs in its slot, and that no two nodes have the same name.  The compiler accepts exactly the
drafts that follow them (`ChapterDraft.compiles_iff_wellFormed`).  The edition counts for nothing
but its reference language.

The compiler looks for problems in an order of its own and gives up early where a draft has no
layout.  The proof takes its checks one by one, each with the rule it stands for, and puts the rules
of the nodes together slot by slot.
-/

namespace BranchingStory

/-! ## The rules -/

/-- The rules for a node of a kind in a slot. -/
structure NodeDraft.WellFormed (n : NodeDraft) (reference : String) (c : ChapterDraft)
    (slot : Slot) (kind : NodeKind) : Prop where
  known : n.kind = some kind.name
  investigation : kind = .investigation ↔ slot = .investigation
  chapterEnd : kind = .chapterEnd ↔ slot = .ending
  text : n.text.contains reference = true
  speaker : n.speaker ≠ none → kind = .dialogue
  /-- A choice links through its own options, or through those of the tracks. -/
  choice : kind = .choice → n.next = none ∧
    (n.options ≠ [] ∧ (∀ o ∈ n.options, o.text.contains reference = true) ∨ c.Selects slot n)
  plain : kind ≠ .choice → n.options = []

/-- The rules for a chapter. -/
structure ChapterDraft.WellFormed (c : ChapterDraft) (reference : String) : Prop where
  title : c.title.contains reference = true
  prologue : c.prologue ≠ []
  povs : (c.tracks.map TrackDraft.pov).Nodup
  named : ∀ t ∈ c.tracks, Text.isBlank t.pov = false ∧ t.pov ≠ "all"
  filled : ∀ t ∈ c.tracks, t.nodes ≠ []
  investigation : c.investigation ≠ none
  ending : c.ending ≠ none
  nodes : ∀ place ∈ c.slotted, ∃ kind, place.2.WellFormed reference c place.1 kind
  names : c.names.Nodup

/-- A node that selects a track is a choice. -/
theorem NodeDraft.WellFormed.kind_of_selects {n : NodeDraft} {reference : String}
    {c : ChapterDraft} {slot : Slot} {kind : NodeKind} (h : n.WellFormed reference c slot kind)
    (hselects : c.Selects slot n) : kind = .choice :=
  NodeKind.name_inj.mp (Option.some.inj (h.known.symm.trans hselects.kind))

/-! ## The checks of a node -/

/-- A check of every element by its position finds nothing. -/
theorem flatMap_zipIdx_eq_nil_iff {α β : Type} {l : List α} {f : α × Nat → List β} :
    l.zipIdx.flatMap f = [] ↔ ∀ i a, l[i]? = some a → f (a, i) = [] := by
  rw [List.flatMap_eq_nil_iff]
  exact ⟨fun h i a ha => h (a, i) (List.mem_zipIdx_iff_getElem?.mpr ha),
    fun h x hx => h x.2 x.1 (List.mem_zipIdx_iff_getElem?.mp hx)⟩

theorem Slot.allows_part_iff {slot : Slot} {kind : NodeKind} : slot.part.allows kind = true ↔
    (kind = .investigation ↔ slot = .investigation) ∧ (kind = .chapterEnd ↔ slot = .ending) := by
  cases slot <;> cases kind <;> simp [part, Part.allows]

namespace Placement

variable {e : Edition} {number : Nat} {p : Placement} {kind : NodeKind}

theorem kind?_eq_some_iff : p.kind? = some kind ↔ p.draft.kind = some kind.name := by
  simp only [kind?, Option.bind_eq_some_iff, NodeKind.ofName?_eq_some_iff]
  constructor
  · rintro ⟨name, hname, rfl⟩
    exact hname
  · exact fun h => ⟨kind.name, h, rfl⟩

theorem speakerProblems_eq_nil_iff (hkind : p.kind? = some kind) :
    p.speakerProblems number = [] ↔ (p.draft.speaker ≠ none → kind = .dialogue) := by
  rw [speakerProblems, hkind]
  simp [Option.isSome_iff_ne_none]

theorem optionProblems_eq_nil_iff : p.optionProblems e number = [] ↔
    ∀ o ∈ p.draft.options, o.text.contains e.reference = true := by
  simp only [optionProblems, flatMap_zipIdx_eq_nil_iff, Edition.textProblems_eq_nil_iff,
    List.mem_iff_getElem?, forall_exists_index]
  exact forall_comm

theorem linkProblems_eq_nil_iff (hkind : p.kind? = some kind) : p.linkProblems e number = [] ↔
    (kind = .choice → p.draft.next = none ∧
      (p.draft.options ≠ [] ∧ (∀ o ∈ p.draft.options, o.text.contains e.reference = true) ∨
        p.draft.options = [] ∧ p.defaultLink.IsChoice)) ∧
    (kind ≠ .choice → p.draft.options = []) := by
  rw [linkProblems, hkind]
  cases kind with
  | choice =>
      have hoptions : p.optionProblems e number = [] ↔
          ∀ o ∈ p.draft.options, o.text.contains e.reference = true := optionProblems_eq_nil_iff
      rw [← hoptions]
      cases p.draft.options with
      | nil => cases p.defaultLink <;> simp [Link.IsChoice]
      | cons o rest => simp
  | dialogue | investigation | chapterEnd => simp

/-- A placed node has no problem exactly if its draft follows the rules. -/
theorem problems_eq_nil_iff {c : ChapterDraft} {slot : Slot} {n : NodeDraft}
    (hp : p.Fits c slot n) :
    p.problems e number = [] ↔ ∃ kind, n.WellFormed e.reference c slot kind := by
  obtain ⟨rfl, _, hpart, _, hoffers⟩ := hp
  have hselects : p.draft.options = [] ∧ p.defaultLink.IsChoice ↔ c.Selects slot p.draft := by
    rw [hoffers]
    exact ⟨And.right, fun h => ⟨h.options, h⟩⟩
  simp only [problems, List.append_eq_nil_iff, kindProblems_eq_nil_iff, hpart,
    Slot.allows_part_iff, Edition.textProblems_eq_nil_iff]
  constructor
  · rintro ⟨⟨⟨⟨kind, hkind, hinvestigation, hend⟩, hspeaker⟩, htext⟩, hlink⟩
    rw [speakerProblems_eq_nil_iff hkind] at hspeaker
    rw [linkProblems_eq_nil_iff hkind, hselects] at hlink
    exact ⟨kind, kind?_eq_some_iff.mp hkind, hinvestigation, hend, htext, hspeaker, hlink.1,
      hlink.2⟩
  · rintro ⟨kind, h⟩
    have hkind := kind?_eq_some_iff.mpr h.known
    rw [speakerProblems_eq_nil_iff hkind, linkProblems_eq_nil_iff hkind, hselects]
    exact ⟨⟨⟨⟨kind, hkind, h.investigation, h.chapterEnd⟩, h.speaker⟩, h.text⟩, h.choice, h.plain⟩

end Placement

/-! ## The checks of the outline -/

/-- No element is like an earlier one exactly if nothing repeats. -/
theorem forall_notMem_take_iff_nodup {α β : Type} {f : α → β} {l : List α} :
    (∀ i a, l[i]? = some a → f a ∉ (l.take i).map f) ↔ (l.map f).Nodup := by
  rw [List.Nodup, List.pairwise_map, List.pairwise_iff_getElem]
  constructor
  · intro h i j hi hj hij heq
    refine h j l[j] (List.getElem?_eq_getElem hj) (List.mem_map.mpr ⟨l[i], ?_, heq⟩)
    exact List.mem_take_iff_getElem.mpr ⟨i, by omega, rfl⟩
  · intro h j a ha hmem
    obtain ⟨hj, rfl⟩ := List.getElem?_eq_some_iff.mp ha
    obtain ⟨b, hb, heq⟩ := List.mem_map.mp hmem
    obtain ⟨i, hi, rfl⟩ := List.mem_take_iff_getElem.mp hb
    exact h i j (by omega) hj (by omega) heq

namespace ChapterDraft

variable {e : Edition} {c : ChapterDraft} {l : Layout}

theorem trackProblems_eq_nil_iff {t : TrackDraft} {i : Nat} : c.trackProblems t i = [] ↔
    t.pov ∉ (c.tracks.take i).map TrackDraft.pov ∧
      (Text.isBlank t.pov = false ∧ t.pov ≠ "all") ∧ t.nodes ≠ [] := by
  simp [trackProblems, Perspective.name]

theorem outlineProblems_eq_nil_iff : c.outlineProblems e = [] ↔
    c.title.contains e.reference = true ∧ c.prologue ≠ [] ∧
      ((c.tracks.map TrackDraft.pov).Nodup ∧
        ∀ t ∈ c.tracks, (Text.isBlank t.pov = false ∧ t.pov ≠ "all") ∧ t.nodes ≠ []) ∧
      c.investigation ≠ none ∧ c.ending ≠ none := by
  have htracks : (∀ i t, c.tracks[i]? = some t → c.trackProblems t i = []) ↔
      (c.tracks.map TrackDraft.pov).Nodup ∧
        ∀ t ∈ c.tracks, (Text.isBlank t.pov = false ∧ t.pov ≠ "all") ∧ t.nodes ≠ [] := by
    simp only [trackProblems_eq_nil_iff, ← forall_notMem_take_iff_nodup, List.mem_iff_getElem?,
      forall_exists_index]
    exact ⟨fun h => ⟨fun i t ht => (h i t ht).1, fun t i ht => (h i t ht).2⟩,
      fun h i t ht => ⟨h.1 i t ht, h.2 t i ht⟩⟩
  have hnone {p : Prop} [Decidable p] (d : Diagnostic) : (if p then [d] else []) = [] ↔ ¬ p := by
    simp
  simp only [outlineProblems, List.append_eq_nil_iff, Edition.textProblems_eq_nil_iff,
    flatMap_zipIdx_eq_nil_iff, htracks, hnone, List.isEmpty_iff, Option.isNone_iff_eq_none,
    and_assoc, ne_eq]

/-- A clean layout is one of a draft whose nodes follow the rules. -/
theorem clean_iff (h : c.layout? = some l) : l.Clean e c.number ↔
    ∀ place ∈ c.slotted, ∃ kind, place.2.WellFormed e.reference c place.1 kind :=
  (forall_mem_iff_of_forall₂ (fits_place h) fun _ _ hp =>
    (Placement.problems_eq_nil_iff hp).symm).symm

/-- The compiler accepts exactly the well-formed drafts. -/
theorem compiles_iff_wellFormed (e : Edition) (c : ChapterDraft) :
    (∃ ch, c.compile e = .ok ch) ↔ c.WellFormed e.reference := by
  constructor
  · rintro ⟨ch, h⟩
    obtain ⟨l, hlayout, houtline, hclean, hids, _⟩ := compile_eq_ok_iff.mp h
    obtain ⟨htitle, hprologue, ⟨hpovs, htracks⟩, hinvestigation, hending⟩ :=
      outlineProblems_eq_nil_iff.mp houtline
    rw [ids_assemble hclean, names_eq hlayout] at hids
    exact ⟨htitle, hprologue, hpovs, fun t ht => (htracks t ht).1, fun t ht => (htracks t ht).2,
      hinvestigation, hending, (clean_iff hlayout).mp hclean, hids⟩
  · intro h
    obtain ⟨l, hlayout⟩ := exists_layout h.prologue h.filled h.investigation h.ending
    have hclean := (clean_iff (e := e) hlayout).mpr h.nodes
    have hids : (c.assemble e l).ids.Nodup := by
      rw [ids_assemble hclean, names_eq hlayout]
      exact h.names
    have houtline : c.outlineProblems e = [] := outlineProblems_eq_nil_iff.mpr
      ⟨h.title, h.prologue, ⟨h.povs, fun t ht => ⟨h.named t ht, h.filled t ht⟩⟩,
        h.investigation, h.ending⟩
    exact ⟨_, compile_eq_ok_iff.mpr ⟨l, hlayout, houtline, hclean, hids, rfl⟩⟩

end ChapterDraft

end BranchingStory
