import BranchingStory.Proofs.Story.DefaultLinks

/-!
# Playing a story

A player stands at a *scene*: a chapter and a node, both by name.  A step follows the link of
the node, whether or not anything is there.  A link to a node and an option of a choice stay
in the chapter, a link to a chapter leads to its entry, and a link to the end of the story
leads nowhere.  A *walk* is any number of steps.

`SoundStory.step_cases` says once what a step can do in a sound story, and the other
statements follow from it.  A walk from the entry of a chapter stays on the nodes of the story
(`SoundStory.exists_shows_of_walk`), and wherever it stands the player can go on unless the story is
over (`SoundStory.exists_step_iff`).
-/

namespace BranchingStory

/-! ## Scenes and steps -/

/-- Where a player stands: the number of a chapter and the name of a node. -/
structure Scene where
  chapter : Nat
  node : String
deriving DecidableEq, Repr

/-- The scene at which a chapter begins. -/
def Chapter.opening (c : Chapter) : Scene := ⟨c.number, c.entry⟩

/-- The scene is a node of a chapter of the story. -/
def Scene.Shows (s : Scene) (story : List Chapter) (n : Node) : Prop :=
  ∃ c ∈ story, c.number = s.chapter ∧ n ∈ c.nodes ∧ n.id = s.node

/-- One step of a player. -/
inductive Step (story : List Chapter) : Scene → Scene → Prop where
  /-- To the node that the link names. -/
  | node {s : Scene} {n : Node} {id : String} :
      s.Shows story n → n.next = .node id → Step story s ⟨s.chapter, id⟩
  /-- To the target of one of the options. -/
  | option {s : Scene} {n : Node} {options : List Choice} {o : Choice} :
      s.Shows story n → n.next = .choice options → o ∈ options →
        Step story s ⟨s.chapter, o.target⟩
  /-- To the entry of the chapter of the number. -/
  | chapter {s : Scene} {n : Node} {c : Chapter} :
      s.Shows story n → n.next = .chapter c.number → c ∈ story → Step story s c.opening

/-- Any number of steps. -/
def Walk (story : List Chapter) (s t : Scene) : Prop := Relation.ReflTransGen (Step story) s t

variable {story : List Chapter} {c d : Chapter} {n : Node} {s t : Scene}

theorem shows_of_mem (hc : c ∈ story) (hn : n ∈ c.nodes) :
    Scene.Shows ⟨c.number, n.id⟩ story n := ⟨c, hc, rfl, hn, rfl⟩

/-- A local link of a chapter is a step of the player. -/
theorem step_of_leads (hc : c ∈ story) {a b : String} (h : c.Leads a b) :
    Step story ⟨c.number, a⟩ ⟨c.number, b⟩ := by
  obtain ⟨n, hn, rfl, ht, -⟩ := h
  have hshows := shows_of_mem hc hn
  rw [Node.localTargets] at ht
  cases hnext : n.next with
  | node id =>
      obtain rfl : b = id := by simpa [hnext, Link.localTargets] using ht
      exact .node hshows hnext
  | chapter number => simp [hnext, Link.localTargets] at ht
  | choice options =>
      rw [hnext] at ht
      obtain ⟨o, ho, rfl⟩ := List.mem_map.mp ht
      exact .option hshows hnext ho
  | ending => simp [hnext, Link.localTargets] at ht

/-- A route of a chapter is a walk of the player. -/
theorem walk_of_route (hc : c ∈ story) {a b : String} (h : c.Route a b) :
    Walk story ⟨c.number, a⟩ ⟨c.number, b⟩ := by
  induction h with
  | refl => exact .refl
  | tail _ hleads ih => exact ih.tail (step_of_leads hc hleads)

/-! ## Steps in a sound story -/

namespace SoundStory

/-- In a sound story a scene shows at most one node, and a node of the chapter it names. -/
theorem mem_nodes_of_shows (hs : SoundStory story) (hc : c ∈ story) (hnumber : s.chapter = c.number)
    (h : s.Shows story n) : n ∈ c.nodes ∧ n.id = s.node := by
  obtain ⟨d, hd, hdnumber, hn, hid⟩ := h
  obtain rfl := hs.chapter_ext hd hc (hdnumber.trans hnumber)
  exact ⟨hn, hid⟩

theorem shows_unique (hs : SoundStory story) {n m : Node} (hn : s.Shows story n)
    (hm : s.Shows story m) : n = m := by
  obtain ⟨c, hc, hnumber, hnMem, hnId⟩ := hn
  obtain ⟨hmMem, hmId⟩ := hs.mem_nodes_of_shows hc hnumber.symm hm
  exact Chapter.node_ext (hs.ids c hc) hnMem hmMem (hnId.trans hmId.symm)

/-- What a step can do: it follows a local link, or it leaves by a link to the next chapter
and arrives at the entry there. -/
theorem step_cases (hs : SoundStory story) (hc : c ∈ story) (hnumber : s.chapter = c.number)
    (h : Step story s t) :
    (t.chapter = c.number ∧ c.Leads s.node t.node) ∨
      ∃ d ∈ story, d.number = c.number + 1 ∧ t = d.opening ∧
        ∃ n ∈ c.nodes, n.id = s.node ∧ n.next = .chapter d.number := by
  cases h with
  | @node n id hshows hnext =>
      obtain ⟨hn, hid⟩ := hs.mem_nodes_of_shows hc hnumber hshows
      have hpermits := (hs.chapters c hc).links n hn
      rw [hnext] at hpermits
      exact .inl ⟨hnumber, n, hn, hid, by simp [Node.localTargets, hnext, Link.localTargets],
        hpermits⟩
  | @option n options o hshows hnext ho =>
      obtain ⟨hn, hid⟩ := hs.mem_nodes_of_shows hc hnumber hshows
      have hpermits := (hs.chapters c hc).links n hn
      rw [hnext] at hpermits
      have htarget : o.target ∈ n.localTargets := by
        rw [Node.localTargets, hnext]
        exact List.mem_map_of_mem ho
      exact .inl ⟨hnumber, n, hn, hid, htarget, hpermits o ho⟩
  | @chapter n d hshows hnext hd =>
      obtain ⟨hn, hid⟩ := hs.mem_nodes_of_shows hc hnumber hshows
      have hpermits := (hs.chapters c hc).links n hn
      rw [hnext] at hpermits
      exact .inr ⟨d, hd, hpermits.1, rfl, n, hn, hid, hnext⟩

/-- The node of a name in a chapter is shown at its scene. -/
theorem exists_shows_of_mem_ids (hc : c ∈ story) {id : String} (h : id ∈ c.ids) :
    ∃ n, Scene.Shows ⟨c.number, id⟩ story n := by
  obtain ⟨n, hn, rfl⟩ := Chapter.mem_ids_iff.mp h
  exact ⟨n, shows_of_mem hc hn⟩

theorem exists_shows_opening (hs : SoundStory story) (hc : c ∈ story) :
    ∃ n, c.opening.Shows story n :=
  exists_shows_of_mem_ids hc (hs.chapters c hc).entry

/-- A step ends at a node of the story. -/
theorem exists_shows_of_step (hs : SoundStory story) (h : Step story s t) :
    ∃ n, t.Shows story n := by
  obtain ⟨c, hc, hnumber⟩ : ∃ c ∈ story, s.chapter = c.number := by
    cases h with
    | node hshows _ | option hshows _ _ | chapter hshows _ _ =>
        obtain ⟨c, hc, hnumber, _, _⟩ := hshows
        exact ⟨c, hc, hnumber.symm⟩
  rcases hs.step_cases hc hnumber h with ⟨hchapter, _, _, _, _, hids⟩ | ⟨d, hd, _, rfl, _⟩
  · obtain ⟨n, hn⟩ := exists_shows_of_mem_ids hc hids
    exact ⟨n, by rwa [← hchapter] at hn⟩
  · exact hs.exists_shows_opening hd

/-- A walk from the entry of a chapter stays on the nodes of the story. -/
theorem exists_shows_of_walk (hs : SoundStory story) (hc : c ∈ story)
    (h : Walk story c.opening s) : ∃ n, s.Shows story n := by
  cases Relation.ReflTransGen.cases_tail h with
  | inl heq => exact heq ▸ hs.exists_shows_opening hc
  | inr hstep =>
      obtain ⟨_, _, hstep⟩ := hstep
      exact hs.exists_shows_of_step hstep

/-- The player can go on exactly where the link is not the end of the story. -/
theorem exists_step_iff (hs : SoundStory story) (h : s.Shows story n) :
    (∃ t, Step story s t) ↔ n.next ≠ .ending := by
  constructor
  · rintro ⟨t, hstep⟩ hending
    cases hstep with
    | node hshows hnext | option hshows hnext _ | chapter hshows hnext _ =>
        rw [hs.shows_unique h hshows, hnext] at hending
        cases hending
  · intro hending
    obtain ⟨c, hc, hnumber, hn, hid⟩ := h
    have hpermits := (hs.chapters c hc).links n hn
    cases hnext : n.next with
    | node id => exact ⟨_, .node ⟨c, hc, hnumber, hn, hid⟩ hnext⟩
    | chapter number =>
        rw [hnext] at hpermits
        obtain ⟨d, hd, rfl⟩ := List.mem_map.mp hpermits.2
        exact ⟨_, .chapter ⟨c, hc, hnumber, hn, hid⟩ hnext hd⟩
    | choice options =>
        cases options with
        | nil => exact absurd hnext (hs.choices c hc n hn)
        | cons o rest =>
            exact ⟨_, .option ⟨c, hc, hnumber, hn, hid⟩ hnext (List.mem_cons_self ..)⟩
    | ending => exact absurd hnext hending

end SoundStory

/-! ## Builds without errors -/

/-- A player in a story without errors is safe and never stuck.  However far a walk from the
entry of a chapter has gone, it stands at a node of the story and at only one.  The next step
stays in the chapter or leads to the next one.  The story ends only in the last chapter.
There is a next step exactly if the story does not end here. -/
theorem walk_safe (e : Edition) (m : Manuscript) (h : (m.build e).report.errors = [])
    {c : Chapter} (hc : c ∈ (m.build e).chapters) {s : Scene}
    (hw : Walk (m.build e).chapters c.opening s) :
    (∃! n, s.Shows (m.build e).chapters n) ∧
    (∀ t, Step (m.build e).chapters s t → t.chapter = s.chapter ∨ t.chapter = s.chapter + 1) ∧
    ∀ n, s.Shows (m.build e).chapters n →
      (n.next = .ending → ∀ d ∈ (m.build e).chapters, d.number ≤ s.chapter) ∧
      ((∃ t, Step (m.build e).chapters s t) ↔ n.next ≠ .ending) := by
  have hs := Manuscript.soundStory_of_errors_eq_nil h
  obtain ⟨n, hshows⟩ := hs.exists_shows_of_walk hc hw
  refine ⟨⟨n, hshows, fun m hm => hs.shows_unique hm hshows⟩, fun t hstep => ?_, fun m hm => ?_⟩
  · obtain ⟨d, hd, hnumber, _, _⟩ := hshows
    rcases hs.step_cases hd hnumber.symm hstep with ⟨hchapter, _⟩ | ⟨d', _, hnext, rfl, _⟩
    · exact .inl (hchapter.trans hnumber)
    · exact .inr (hnext.trans (by rw [hnumber]))
  · refine ⟨fun hending d hd => ?_, hs.exists_step_iff hm⟩
    obtain ⟨d', hd', hnumber, hmMem, _⟩ := hm
    have hlast := (hs.chapters d' hd').links m hmMem
    rw [hending] at hlast
    rw [← hnumber, hlast]
    exact number_le_lastNumber hd

theorem walk_safe_twoNights :
    (twoNights.build ⟨"english", none⟩).report.errors = [] ∧
    ∃ c ∈ (twoNights.build ⟨"english", none⟩).chapters, c.opening = ⟨1, "CH1_START"⟩ ∧
      Walk (twoNights.build ⟨"english", none⟩).chapters c.opening ⟨1, "CH1_END"⟩ ∧
      ∃! n, Scene.Shows ⟨1, "CH1_END"⟩ (twoNights.build ⟨"english", none⟩).chapters n := by
  have hplain := plain_twoNights none
  have hreport : (twoNights.build ⟨"english", none⟩).report.errors = [] := by
    rw [hplain.report_of_lastChapter_none rfl]
    rfl
  have hfirst : firstNight ∈ twoNights.chapters := by simp [twoNights]
  obtain ⟨c, hc, hcompile⟩ := hplain.exists_mem_chapters_build hfirst
  have hroute := ChapterDraft.route_entry_of_plain (hplain.plain _ hfirst) hcompile "CH1_END"
    (ChapterDraft.endId_mem_ids hcompile)
  obtain ⟨_, _, _, _, _, rfl⟩ := ChapterDraft.compile_eq_ok_iff.mp hcompile
  have hwalk := walk_of_route hc hroute
  exact ⟨hreport, _, hc, rfl, hwalk, (walk_safe _ _ hreport hc hwalk).1⟩

end BranchingStory
