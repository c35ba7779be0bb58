import BranchingStory.Proofs.Chapter.Authored
import BranchingStory.Proofs.Chapter.Change

/-!
# Explicit drafts

A compiled chapter says of every node what its author may leave out: the name, the link, and the
options of a choice among the tracks.  Written out in the draft, they change nothing, and the last
chapter of the story no longer matters (`ChapterDraft.compile_explicit`).

The draft that is written out need not branch any more, so its default links can be others than
before.  They are not compared: no node of it uses its default link, and every node is that of its
slot alone (`Node.eq_of_spellOut`).
-/

namespace BranchingStory

/-! ## Writing out what a node is -/

/-- The option as an author writes it. -/
def Choice.toDraft (o : Choice) : ChoiceDraft := ⟨o.text, o.target⟩

/-- The link as an author writes it.  Options are not part of it. -/
def Link.toDraft? : Link → Option LinkDraft
  | node id => some (.node id)
  | chapter number => some (.chapter number)
  | choice _ => none
  | ending => some .ending

/-- The draft with the name, the link and the options of its node written out. -/
def NodeDraft.spellOut (n : NodeDraft) (node : Node) : NodeDraft :=
  { n with
    id := some (n.id.getD node.id)
    next := node.next.toDraft?
    options := if n.options.isEmpty then node.next.options.map Choice.toDraft else n.options }

/-- The draft with everything written out that its author left to the compiler. -/
def ChapterDraft.explicit (c : ChapterDraft) (ch : Chapter) : ChapterDraft :=
  c.mapNodes fun i n => (ch.nodes[i]?.map n.spellOut).getD n

namespace Link

variable {link : Link}

theorem toLink_toDraft? {target : LinkDraft} (h : link.toDraft? = some target) :
    target.toLink = link := by
  cases link <;> simp only [toDraft?, Option.some.injEq, reduceCtorEq] at h <;> subst h <;> rfl

theorem toDraft?_eq_none_iff : link.toDraft? = none ↔ link.IsChoice := by
  cases link <;> simp [toDraft?, IsChoice]

theorem toChoice_toDraft (options : List Choice) :
    (options.map Choice.toDraft).map ChoiceDraft.toChoice = options := by
  simp [Choice.toDraft, ChoiceDraft.toChoice, Function.comp_def]

end Link

/-! ## Nodes -/

/-- The node is that of a draft which follows the rules, and says what the draft says. -/
structure Node.Follows (node : Node) (number : Nat) (reference : String) (c : ChapterDraft)
    (slot : Slot) (n : NodeDraft) : Prop where
  renders : node.Renders number slot n
  rules : n.WellFormed reference c slot node.kind
  conveys : node.Conveys reference c slot n
  choice : node.kind = .choice ↔ node.next.IsChoice
  filled : node.next ≠ .choice []
  covered : node.next.Covered reference

namespace Node

variable {node node' : Node} {number : Nat} {reference : String} {c c' : ChapterDraft} {slot : Slot}
  {n : NodeDraft}

theorem options_spellOut (h : node.Follows number reference c slot n) {options : List Choice}
    (hnext : node.next = .choice options) :
    (n.spellOut node).options.map ChoiceDraft.toChoice = options := by
  by_cases hoptions : n.options = []
  · have hspelled : (n.spellOut node).options = options.map Choice.toDraft := by
      simp [NodeDraft.spellOut, hoptions, hnext, Link.options]
    rw [hspelled, Link.toChoice_toDraft]
  · have hwritten := h.conveys.options hoptions
    simpa [NodeDraft.spellOut, hoptions, hnext] using hwritten.symm

theorem options_spellOut_ne_nil (h : node.Follows number reference c slot n)
    {options : List Choice} (hnext : node.next = .choice options) :
    (n.spellOut node).options ≠ [] := by
  intro hnil
  have hoptions := options_spellOut h hnext
  rw [hnil] at hoptions
  exact h.filled (hnext.trans (congrArg Link.choice hoptions.symm))

theorem options_spellOut_of_not_isChoice (h : node.Follows number reference c slot n)
    (hnext : ¬ node.next.IsChoice) : (n.spellOut node).options = [] := by
  have hoptions : n.options = [] := h.rules.plain (mt h.choice.mp hnext)
  cases hlink : node.next with
  | choice options => exact absurd ⟨options, hlink⟩ hnext
  | _ => simp [NodeDraft.spellOut, hoptions, hlink, Link.options]

/-- What is written out follows the rules. -/
theorem wellFormed_spellOut (h : node.Follows number reference c slot n) :
    (n.spellOut node).WellFormed reference c' slot node.kind where
  known := h.rules.known
  investigation := h.rules.investigation
  chapterEnd := h.rules.chapterEnd
  text := h.rules.text
  speaker := h.rules.speaker
  choice hkind := by
    obtain ⟨options, hnext⟩ := h.choice.mp hkind
    have hoptions := options_spellOut h hnext
    -- Options of the author's own are covered by the rules, and those of the tracks by their
    -- labels, but either way they are now the options of the node.
    refine ⟨Link.toDraft?_eq_none_iff.mpr ⟨options, hnext⟩,
      .inl ⟨options_spellOut_ne_nil h hnext, fun o ho => ?_⟩⟩
    have hmem : o.toChoice ∈ node.next.options := by
      rw [hnext, Link.options, ← hoptions]
      exact List.mem_map_of_mem ho
    exact h.covered _ hmem
  plain hkind := options_spellOut_of_not_isChoice h (mt h.choice.mpr hkind)

theorem next_eq_of_spellOut (h : node.Follows number reference c slot n)
    (h' : node'.Conveys reference c' slot (n.spellOut node)) : node'.next = node.next := by
  by_cases hchoice : node.next.IsChoice
  · obtain ⟨options, hnext⟩ := hchoice
    rw [h'.options (options_spellOut_ne_nil h hnext), options_spellOut h hnext, hnext]
  · have hlink : node.next.toDraft? ≠ none := mt Link.toDraft?_eq_none_iff.mp hchoice
    obtain ⟨target, htarget⟩ := Option.ne_none_iff_exists'.mp hlink
    rw [h'.next (options_spellOut_of_not_isChoice h hchoice) target htarget,
      Link.toLink_toDraft? htarget]

theorem nameAt_spellOut (h : node.Follows number reference c slot n) :
    (n.spellOut node).nameAt number slot = node.id := by
  rw [h.renders.id, NodeDraft.nameAt, NodeDraft.spellOut, h.renders.id]
  cases hid : n.id <;> simp [NodeDraft.nameAt, hid]

/-- The node of what is written out is the node again. -/
theorem eq_of_spellOut (h : node.Follows number reference c slot n)
    (hr : node'.Renders number slot (n.spellOut node))
    (hc : node'.Conveys reference c' slot (n.spellOut node)) : node' = node := by
  have hid : node'.id = node.id := hr.id.trans (nameAt_spellOut h)
  have hkind : node'.kind = node.kind :=
    NodeKind.name_inj.mp (Option.some.inj (hr.kind.symm.trans h.renders.kind))
  have hspeaker : node'.speaker = node.speaker := hr.speaker.trans h.renders.speaker.symm
  have htext : node'.text = node.text := hr.text.trans h.renders.text.symm
  have hnext : node'.next = node.next := next_eq_of_spellOut h hc
  have hpov : node'.pov = node.pov := hr.pov.trans h.renders.pov.symm
  have htags : node'.tags = node.tags := hr.tags.trans h.renders.tags.symm
  cases node
  cases node'
  simp_all

end Node

namespace ChapterDraft

variable {e : Edition} {c : ChapterDraft} {ch : Chapter}

theorem forall₂_follows_of_compile (h : c.compile e = .ok ch) :
    List.Forall₂ (fun place node => node.Follows ch.number e.reference c place.1 place.2)
      c.slotted ch.nodes := by
  have hnodes := (forall₂_nodes_of_compile h).mp (fun _ _ => And.intro)
    (forall₂_conveys_of_compile h)
  have hfilled : ∀ n ∈ ch.nodes, n.next ≠ .choice [] ∧ n.next.Covered e.reference := by
    intro n hn
    refine ⟨next_ne_choice_nil_of_compile h hn, fun o ho => ?_⟩
    obtain ⟨i, hi⟩ := List.mem_iff_getElem?.mp ho
    exact contains_of_compile h (.option hn hi)
  exact (forall₂_and_right hnodes hfilled).imp
    fun _ _ ⟨⟨⟨hr, hw, hchoice⟩, hc⟩, hne, hcovered⟩ => ⟨hr, hw, hc, hchoice, hne, hcovered⟩

/-- In the explicit form every node is written out, slot by slot. -/
theorem forall₂_slotted_explicit {R : Slot × NodeDraft → Node → Prop}
    (h : List.Forall₂ R c.slotted ch.nodes) :
    List.Forall₂ (fun place' node => ∃ place, place' = (place.1, place.2.spellOut node) ∧
      R place node) (c.explicit ch).slotted ch.nodes := by
  have hslotted : (c.explicit ch).slotted = c.slotted.mapIdx fun i place =>
      (ch.nodes[i]?.map fun node => (place.1, place.2.spellOut node)).getD place := by
    rw [explicit, slotted_mapNodes]
    refine congrArg (List.mapIdx · _) ?_
    funext i place
    cases ch.nodes[i]? <;> rfl
  rw [hslotted]
  exact forall₂_mapIdx_getElem? h

/-- The explicit form of an accepted draft compiles to the same chapter, wherever the story ends. -/
theorem compile_explicit (h : c.compile e = .ok ch) (lastChapter : Option Nat) :
    (c.explicit ch).compile { e with lastChapter := lastChapter } = .ok ch := by
  -- Both drafts stand slot by slot beside the nodes of the one chapter.
  have hfollows := forall₂_follows_of_compile h
  have hspelled := forall₂_slotted_explicit hfollows
  have hnumber : ch.number = c.number := number_of_compile h
  have hnames : (c.explicit ch).names = c.names := by
    have hids : c.names = ch.nodes.map Node.id :=
      map_eq_map_of_forall₂ hfollows fun _ _ hn => hnumber ▸ hn.renders.id.symm
    rw [hids]
    refine map_eq_map_of_forall₂ hspelled ?_
    rintro _ node ⟨place, rfl, hn⟩
    exact hnumber ▸ Node.nameAt_spellOut hn
  have hrules : ∀ place ∈ (c.explicit ch).slotted, ∃ kind,
      place.2.WellFormed e.reference (c.explicit ch) place.1 kind := by
    intro place hplace
    obtain ⟨node, _, place, rfl, hn⟩ := exists_mem_right_of_forall₂ hspelled hplace
    exact ⟨node.kind, Node.wellFormed_spellOut hn⟩
  have haccepted : ∃ ch', (c.explicit ch).compile { e with lastChapter := lastChapter } = .ok ch' :=
    exists_compile_mapNodes h rfl hnames hrules
  obtain ⟨ch', h'⟩ := haccepted
  have hnumber' : ch'.number = ch.number := (number_of_compile h').trans hnumber.symm
  have hnodes : ch'.nodes = ch.nodes := by
    refine List.forall₂_eq_eq_eq ▸ forall₂_of_forall₂ (forall₂_follows_of_compile h') hspelled ?_
    rintro _ node' node hn' ⟨place, rfl, hn⟩
    exact Node.eq_of_spellOut hn (hnumber' ▸ hn'.renders) hn'.conveys
  rw [h', ext_of_compile h h' rfl rfl map_pov_mapNodes hnodes]

/-- The first night written out, in a story that goes on. -/
theorem compile_explicit_firstNight : ∃ ch, firstNight.compile ⟨"english", none⟩ = .ok ch ∧
    (firstNight.explicit ch).compile ⟨"english", some 7⟩ = .ok ch := by
  have hcompile : ∃ ch, firstNight.compile ⟨"english", none⟩ = .ok ch := ⟨_, rfl⟩
  obtain ⟨ch, hch⟩ := hcompile
  exact ⟨ch, hch, compile_explicit hch (some 7)⟩

end ChapterDraft

end BranchingStory
