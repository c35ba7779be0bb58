import BranchingStory.Proofs.Chapter.Shape

/-!
# What the author wrote

A compiled chapter has the title, the texts and the options of its draft, and each authored link,
all as they were written.  The one text that it does not take over as it stands is the label of a
track, in a chapter whose prologue ends with a choice among the tracks: a label without the
reference language gives way to the name of the perspective (`ChapterDraft.conveys_of_compile`).
-/

namespace BranchingStory

/-- The option says and does what a choice among the tracks needs for a track. -/
structure Choice.Offers (o : Choice) (reference : String) (number : Nat) (t : TrackDraft) :
    Prop where
  label : t.label.contains reference = true → o.text = t.label
  perspective : t.label.contains reference = false →
    o.text = (∅ : Translations).insert reference t.pov
  target : t.nodes.head?.map (·.nameAt number (.track t.pov 0)) = some o.target

/-- The node says and does what the author of a draft wrote. -/
structure Node.Conveys (node : Node) (reference : String) (c : ChapterDraft) (slot : Slot)
    (n : NodeDraft) : Prop where
  text : node.text = n.text
  options : n.options ≠ [] → node.next = .choice (n.options.map ChoiceDraft.toChoice)
  next : n.options = [] → ∀ target, n.next = some target → node.next = target.toLink
  tracks : c.Selects slot n → ∃ options, node.next = .choice options ∧
    List.Forall₂ (fun t o => o.Offers reference c.number t) c.tracks options

/-- The chapter says and does what the author of a draft wrote. -/
structure Chapter.Conveys (ch : Chapter) (reference : String) (c : ChapterDraft) : Prop where
  title : ch.title = c.title
  nodes : List.Forall₂ (fun place node => node.Conveys reference c place.1 place.2)
    c.slotted ch.nodes

/-! ## Links -/

namespace Layout

variable {e : Edition} {number : Nat} {l : Layout} {p : Placement}

/-- A layout adds no options but those of the tracks. -/
theorem defaultLink_eq_of_isChoice (hp : p ∈ l.place e number) (h : p.defaultLink.IsChoice) :
    p.defaultLink = .choice (trackOptions e l.tracks) := by
  rcases mem_place_iff.mp hp with hp | rfl | rfl
  · rcases defaultLink_of_mem_placeBefore hp with hlink | ⟨id, hlink⟩
    · rw [hlink] at h ⊢
      rw [linkFromPrologue, if_pos (isChoice_linkFromPrologue_iff.mp h)]
    · exact absurd (hlink ▸ h) (not_isChoice_node id)
  · exact absurd h (not_isChoice_node _)
  · exact absurd h not_isChoice_linkAfter

/-- Each track has an option of its own, in order. -/
theorem forall₂_trackOptions {tracks : List TrackDraft} (h : ∀ t ∈ tracks, t.nodes ≠ []) :
    List.Forall₂ (fun t o => o.Offers e.reference number t) tracks
      (trackOptions e
        (tracks.map fun t => (t, Run.ofDrafts number (.track t.pov) t.nodes))) := by
  rw [trackOptions, List.filterMap_map]
  have hsame : List.Forall₂ Eq tracks tracks := List.forall₂_refl tracks
  refine forall₂_filterMap hsame ?_
  rintro t _ ht rfl
  obtain ⟨first, rest, hnodes⟩ := List.exists_cons_of_ne_nil (h t ht)
  refine ⟨⟨trackLabel e t, first.nameAt number (.track t.pov 0)⟩, ?_, ?_, ?_, ?_⟩
  · simp [Run.ofDrafts, hnodes, NodeDraft.nameAt]
  · exact fun hlabel => if_pos hlabel
  · intro hlabel
    simp [trackLabel, hlabel]
  · simp [hnodes]

end Layout

namespace Placement

variable {p : Placement}

theorem link_of_options (h : p.draft.options ≠ []) :
    p.link = .choice (p.draft.options.map ChoiceDraft.toChoice) := by
  obtain ⟨o, rest, hoptions⟩ := List.exists_cons_of_ne_nil h
  rw [link, hoptions]

theorem link_of_next (hoptions : p.draft.options = []) {target : LinkDraft}
    (hnext : p.draft.next = some target) : p.link = target.toLink := by
  rw [link, hoptions, hnext]
  rfl

end Placement

/-! ## Compiled chapters -/

namespace ChapterDraft

variable {e : Edition} {c : ChapterDraft} {ch : Chapter}

/-- Slot by slot a compiled chapter says and does what the author wrote. -/
theorem forall₂_conveys_of_compile (h : c.compile e = .ok ch) :
    List.Forall₂ (fun place node => node.Conveys e.reference c place.1 place.2)
      c.slotted ch.nodes := by
  obtain ⟨l, hlayout, _, hclean, _, rfl⟩ := compile_eq_ok_iff.mp h
  have hoptions : List.Forall₂ (fun t o => o.Offers e.reference c.number t) c.tracks
      (Layout.trackOptions e l.tracks) := by
    obtain ⟨_, _, _, _, _, hfilled, rfl⟩ := layout?_eq_some_iff.mp hlayout
    exact Layout.forall₂_trackOptions hfilled
  refine forall₂_filterMap (fits_place hlayout) fun place p hp hfits => ?_
  obtain ⟨node, hnode, hrenders, hrules, _⟩ :=
    Placement.exists_node?_renders hfits (hclean p hp)
  have hlink := Placement.next_of_node? hnode
  have hdraft := hfits.draft
  refine ⟨node, hnode, hrenders.text, fun hwritten => ?options, fun hnone target hnext => ?next,
    fun hselects => ?tracks⟩
  case options => rw [hlink, Placement.link_of_options (hdraft ▸ hwritten), hdraft]
  case next => exact hlink.trans (Placement.link_of_next (hdraft ▸ hnone) (hdraft ▸ hnext))
  case tracks =>
    -- Only a choice can select, and a choice has no link of its own.
    have hkind : node.kind = .choice := hrules.kind_of_selects hselects
    have hnext : p.draft.next = none := hdraft ▸ (hrules.choice hkind).1
    have hdefault := Layout.defaultLink_eq_of_isChoice hp (hfits.offers.mpr hselects)
    refine ⟨_, ?_, hoptions⟩
    rw [hlink, Placement.link_eq_defaultLink (hdraft ▸ hselects.options) hnext, hdefault]

/-- Compiling keeps what the author wrote. -/
theorem conveys_of_compile (h : c.compile e = .ok ch) : ch.Conveys e.reference c where
  title := title_of_compile h
  nodes := forall₂_conveys_of_compile h

/-- The first night with a label for each track.  The first label is in French alone. -/
def labelledNight : ChapterDraft where
  number := 1
  title := (english "The first night").insert "french" "La première nuit"
  prologue := firstNight.prologue
  tracks :=
    [{ pov := "consort", label := (∅ : Translations).insert "french" "La concubine",
       nodes := [{ kind := some "dialogue", text := english "You woke." }] },
      { pov := "scholar", label := (english "The scholar").insert "french" "Le lettré",
        nodes := [{ kind := some "dialogue", text := english "You read." }] }]
  investigation := firstNight.investigation
  ending := firstNight.ending

theorem conveys_of_compile_labelledNight :
    ∃ ch, labelledNight.compile ⟨"english", none⟩ = .ok ch ∧
      ch.Conveys "english" labelledNight := by
  have hcompile : ∃ ch, labelledNight.compile ⟨"english", none⟩ = .ok ch := ⟨_, rfl⟩
  obtain ⟨ch, hch⟩ := hcompile
  exact ⟨ch, hch, conveys_of_compile hch⟩

/-- The label in French alone is lost. -/
theorem lost_label_of_labelledNight : ∃ ch, labelledNight.compile ⟨"english", none⟩ = .ok ch ∧
    ∃ t node o, labelledNight.tracks[0]? = some t ∧ ch.nodes[1]? = some node ∧
      node.next.options[0]? = some o ∧
      ¬ ∀ language wording : String, t.label[language]? = some wording →
        o.text[language]? = some wording := by
  refine ⟨_, rfl, _, _, _, rfl, rfl, rfl, fun h => ?_⟩
  have hfrench := h "french" "La concubine" (by simp)
  revert hfrench
  decide

end ChapterDraft

end BranchingStory
