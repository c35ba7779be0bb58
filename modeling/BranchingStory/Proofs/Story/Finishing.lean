import BranchingStory.Proofs.Story.Play

/-!
# Finishing a story

A story can be *finished* from a scene if some walk from there ends it.  The checks do not
promise this.  A node that no route from the entry reaches is only a warning, so the opening
of a chapter may run in a circle and never come near the end, as in `loopingOpening`.

A chapter *can be left* if a route leads from its entry to a node with a link out of the
chapter.  A story without errors can be finished from the entry of its first chapter exactly
if every chapter can be left.  It is enough that no end of a chapter is reported as
unreachable.
-/

namespace BranchingStory

variable {story : List Chapter} {c d : Chapter} {s : Scene}

/-- Some walk from the scene ends the story. -/
def Finishes (story : List Chapter) (s : Scene) : Prop :=
  ∃ t n, Walk story s t ∧ t.Shows story n ∧ n.next = .ending

/-- A route from the entry reaches a node with a link out of the chapter. -/
def Chapter.CanBeLeft (c : Chapter) : Prop :=
  ∃ n ∈ c.nodes, c.Route c.entry n.id ∧ (n.next = .ending ∨ ∃ number, n.next = .chapter number)

namespace SoundStory

/-- A story all of whose chapters can be left can be finished from each of them.  The
recursion goes from a chapter to the one after it, and ends since no number exceeds the
last. -/
theorem finishes_of_canBeLeft (hs : SoundStory story) (hleave : ∀ c ∈ story, c.CanBeLeft)
    (c : Chapter) (hc : c ∈ story) : Finishes story c.opening := by
  obtain ⟨n, hn, hroute, hnext | ⟨number, hnext⟩⟩ := hleave c hc
  · exact ⟨_, n, walk_of_route hc hroute, shows_of_mem hc hn, hnext⟩
  · have hpermits := (hs.chapters c hc).links n hn
    rw [hnext] at hpermits
    obtain ⟨d, hd, rfl⟩ := List.mem_map.mp hpermits.2
    have hnumber : d.number = c.number + 1 := hpermits.1
    have hlast := number_le_lastNumber hd
    obtain ⟨t, m, hwalk, hshows, hending⟩ := finishes_of_canBeLeft hs hleave d hd
    have hstep : Step story ⟨c.number, n.id⟩ d.opening :=
      .chapter (shows_of_mem hc hn) hnext hd
    exact ⟨t, m, ((walk_of_route hc hroute).tail hstep).trans hwalk, hshows, hending⟩
termination_by lastNumber story - c.number
decreasing_by omega

/-- A walk from an entry enters every later chapter at its entry, so it has left every
chapter in between. -/
theorem canBeLeft_of_walk (hs : SoundStory story) (hc : c ∈ story)
    (h : Walk story c.opening s) :
    ∃ d ∈ story, d.number = s.chapter ∧ d.Route d.entry s.node ∧
      ∀ d' ∈ story, c.number ≤ d'.number → d'.number < d.number → d'.CanBeLeft := by
  induction h with
  | refl =>
      exact ⟨c, hc, rfl, .refl _, fun d' _ hle hlt => absurd hlt (Nat.not_lt.mpr hle)⟩
  | tail _ hstep ih =>
      obtain ⟨d, hd, hnumber, hroute, hleft⟩ := ih
      rcases hs.step_cases hd hnumber.symm hstep with
        ⟨hchapter, hleads⟩ | ⟨d₁, hd₁, hnext, rfl, n, hn, hid, hlink⟩
      · exact ⟨d, hd, hchapter.symm, Relation.ReflTransGen.tail hroute hleads, hleft⟩
      · refine ⟨d₁, hd₁, rfl, .refl _, fun d' hd' hle hlt => ?_⟩
        rcases Nat.lt_or_ge d'.number d.number with hbefore | hafter
        · exact hleft d' hd' hle hbefore
        · obtain rfl : d' = d := hs.chapter_ext hd' hd (by omega)
          exact ⟨n, hn, hid ▸ hroute, .inr ⟨_, hlink⟩⟩

/-- A story that can be finished from the entry of its first chapter has no chapter that
cannot be left. -/
theorem canBeLeft_of_finishes (hs : SoundStory story) (hc : c ∈ story)
    (hfirst : ∀ d ∈ story, c.number ≤ d.number) (h : Finishes story c.opening) :
    ∀ d ∈ story, d.CanBeLeft := by
  obtain ⟨t, n, hwalk, hshows, hending⟩ := h
  obtain ⟨last, hlast, hnumber, hroute, hleft⟩ := hs.canBeLeft_of_walk hc hwalk
  obtain ⟨hn, hid⟩ := hs.mem_nodes_of_shows hlast hnumber.symm hshows
  have hpermits := (hs.chapters last hlast).links n hn
  rw [hending] at hpermits
  intro d hd
  have hle : d.number ≤ last.number := by
    rw [hpermits]
    exact number_le_lastNumber hd
  rcases Nat.lt_or_eq_of_le hle with hlt | heq
  · exact hleft d hd (hfirst d hd) hlt
  · obtain rfl := hs.chapter_ext hd hlast heq
    exact ⟨n, hn, hid ▸ hroute, .inl hending⟩

end SoundStory

/-- The end of a sound chapter leads out of it, so the chapter can be left if its end is not
reported as unreachable. -/
theorem Chapter.Sound.canBeLeft {numbers : List Nat} {last : Nat} (hids : c.ids.Nodup)
    (h : c.Sound numbers last)
    (hend : ∀ n ∈ c.nodes, n.kind = .chapterEnd →
      .unreachableNode c.number n.id ∉ c.problems numbers last) : c.CanBeLeft := by
  obtain ⟨n, ⟨hn, hkind⟩, _⟩ := h.oneEnd
  have hroute : c.Route c.entry n.id := by
    by_contra hunreached
    refine hend n hn hkind (List.mem_append_right _ ?_)
    exact (mem_reachProblems_iff hids).mpr ⟨h.entry, n, hn, rfl, hunreached⟩
  have hnext := h.endLink n hn hkind
  refine ⟨n, hn, hroute, ?_⟩
  by_cases hlast : c.number = last
  · exact .inl (by simpa [hlast] using hnext)
  · exact .inr ⟨c.number + 1, by simpa [hlast] using hnext⟩

/-- Every problem of a shipped chapter stands in the report. -/
theorem Manuscript.mem_report_of_mem_problems {e : Edition} {m : Manuscript}
    (hc : c ∈ (m.build e).chapters) {p : Diagnostic}
    (hp : p ∈ c.problems ((m.build e).chapters.map Chapter.number)
      (lastNumber (m.build e).chapters)) : p ∈ (m.build e).report := by
  refine List.mem_append_right _ (List.mem_append_left _ ?_)
  exact List.mem_flatMap.mpr ⟨c, mem_sortByNumber.mpr hc, hp⟩

/-- A story without errors can be finished from the entry of its first chapter exactly if
every chapter can be left, and so in particular if no end of a chapter is reported as
unreachable. -/
theorem finishes_iff_canBeLeft (e : Edition) (m : Manuscript)
    (h : (m.build e).report.errors = []) {c : Chapter} (hc : c ∈ (m.build e).chapters)
    (hfirst : ∀ d ∈ (m.build e).chapters, c.number ≤ d.number) :
    (Finishes (m.build e).chapters c.opening ↔ ∀ d ∈ (m.build e).chapters, d.CanBeLeft) ∧
    ((∀ d ∈ (m.build e).chapters, ∀ n ∈ d.nodes, n.kind = .chapterEnd →
        .unreachableNode d.number n.id ∉ (m.build e).report) →
      Finishes (m.build e).chapters c.opening) := by
  have hs := Manuscript.soundStory_of_errors_eq_nil h
  refine ⟨⟨hs.canBeLeft_of_finishes hc hfirst, fun hleave => hs.finishes_of_canBeLeft hleave c hc⟩,
    fun hends => hs.finishes_of_canBeLeft (fun d hd => ?_) c hc⟩
  exact (hs.chapters d hd).canBeLeft (hs.ids d hd) fun n hn hkind hmem =>
    hends d hd n hn hkind (Manuscript.mem_report_of_mem_problems hd hmem)

theorem finishes_twoNights : (twoNights.build ⟨"english", none⟩).report.errors = [] ∧
    ∃ c ∈ (twoNights.build ⟨"english", none⟩).chapters,
      (∀ d ∈ (twoNights.build ⟨"english", none⟩).chapters, c.number ≤ d.number) ∧
      Finishes (twoNights.build ⟨"english", none⟩).chapters c.opening := by
  have hplain := plain_twoNights none
  have hreport := hplain.report_of_lastChapter_none rfl
  have herrors : (twoNights.build ⟨"english", none⟩).report.errors = [] := by
    rw [hreport]
    rfl
  have hfirst : firstNight ∈ twoNights.chapters := by simp [twoNights]
  obtain ⟨c, hc, hcompile⟩ := hplain.exists_mem_chapters_build hfirst
  have hle : ∀ d ∈ (twoNights.build ⟨"english", none⟩).chapters, c.number ≤ d.number := by
    intro d hd
    obtain ⟨draft, hdraft, hcompile'⟩ := Manuscript.mem_chapters_compile_iff.mp hd
    rw [Manuscript.keptChapters_of_nodup hplain.distinct] at hdraft
    rw [ChapterDraft.number_of_compile hcompile, ChapterDraft.number_of_compile hcompile']
    exact ((hplain.contiguous_inOrder _).mp (List.mem_map_of_mem hdraft)).1
  refine ⟨herrors, c, hc, hle, (finishes_iff_canBeLeft _ _ herrors hc hle).2 ?_⟩
  simp [hreport]

/-! ## A story that cannot be finished -/

/-- A chapter whose opening leads back to itself. -/
def loopingDraft : ChapterDraft where
  number := 1
  title := english "Stairs."
  prologue :=
    [{ kind := some "dialogue", text := english "Stairs.", next := some (.node "CH1_START") }]
  investigation := some { kind := some "investigation", text := english "Stairs." }
  ending := some { kind := some "chapter_end", text := english "Stairs." }

/-- One chapter, whose opening leads back to itself. -/
def loopingOpening : Manuscript where
  chapters := [loopingDraft]

theorem compile_loopingOpening : loopingOpening.compile ⟨"english", none⟩ =
    ⟨[.looping (english "Stairs.")], [], []⟩ := by
  have hdistinct : (loopingOpening.chapters.map ChapterDraft.number).Nodup :=
    List.nodup_singleton _
  have hkept : loopingOpening.keptChapters = [loopingDraft] := by
    rw [Manuscript.keptChapters_of_nodup hdistinct]
    exact sortByNumber_of_pairwise (List.pairwise_singleton ..)
  have hresults : loopingOpening.chapterResults ⟨"english", none⟩ =
      [.ok (.looping (english "Stairs."))] := by
    rw [Manuscript.chapterResults, hkept]
    rfl
  rw [Manuscript.compile, hresults, Manuscript.caseResults_of_no_cases rfl,
    Manuscript.repeatedNumbers_of_nodup hdistinct rfl]
  rfl

/-- No route leaves the opening. -/
theorem not_canBeLeft_looping {text : Translations} : ¬ (Chapter.looping text).CanBeLeft := by
  rintro ⟨n, hn, hroute, hnext⟩
  have hid : n.id = "CH1_START" := Chapter.route_looping_iff.mp hroute
  simp only [Chapter.looping, List.mem_cons, List.not_mem_nil, or_false] at hn
  rcases hn with rfl | rfl | rfl
  · simp at hnext
  · simp at hid
  · simp at hid

/-- A build without errors, with a manifest and with a story that nobody can finish. -/
theorem loopingOpening_not_finishes :
    (loopingOpening.build ⟨"english", none⟩).report.errors = [] ∧
    (loopingOpening.build ⟨"english", none⟩).exitCode = 0 ∧
    (loopingOpening.build ⟨"english", none⟩).manifest.isSome ∧
    ∃ c, (loopingOpening.build ⟨"english", none⟩).chapters = [c] ∧
      ¬ Finishes (loopingOpening.build ⟨"english", none⟩).chapters c.opening := by
  have hchapters : (loopingOpening.build ⟨"english", none⟩).chapters =
      [.looping (english "Stairs.")] := by
    rw [Manuscript.build, compile_loopingOpening]
  have herrors : (loopingOpening.build ⟨"english", none⟩).report.errors = [] := by
    rw [Manuscript.build, compile_loopingOpening, storyProblems, sortByNumber_nil,
      sortByNumber_of_pairwise (List.pairwise_singleton ..), List.flatMap_singleton,
      List.flatMap_nil, List.append_nil]
    exact (Chapter.errors_problems_eq_nil_iff Chapter.nodup_ids_looping).mpr Chapter.sound_looping
  refine ⟨herrors, Report.exitCode_eq_zero_iff.mpr herrors,
    Manuscript.isSome_manifest_of_errors_eq_nil herrors, _, hchapters, fun hfinishes => ?_⟩
  have hs := Manuscript.soundStory_of_errors_eq_nil herrors
  rw [hchapters] at hs hfinishes
  have hleft := hs.canBeLeft_of_finishes (List.mem_singleton.mpr rfl)
    (fun d hd => Nat.le_of_eq (List.mem_singleton.mp hd ▸ rfl)) hfinishes
  exact not_canBeLeft_looping (hleft _ (List.mem_singleton.mpr rfl))

end BranchingStory
