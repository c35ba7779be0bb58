import Mathlib.Data.List.Chain
import BranchingStory.Proofs.Story.Finishing

/-!
# Stories in one piece

A build with an empty report has no warnings either, so every node of a chapter is reached from
the entry of the chapter.  The checks say nothing about the story as a whole, but it is in one
piece.  Since the end of every chapter but the last leads to the chapter after it, the numbers
have no gaps (`ConnectedStory.map_number_eq_range'`).  A player who begins with the first
chapter can pass the ends of all chapters in turn (`ConnectedStory.isChain_closings`) and can
come to every node (`ConnectedStory.walk_opening`).
-/

namespace BranchingStory

variable {story : List Chapter} {c d : Chapter} {n : Node}

/-- A sound story in the order of its numbers.  In every chapter a route leads from the entry
to every node. -/
structure ConnectedStory (story : List Chapter) : Prop extends SoundStory story where
  increasing : story.Pairwise fun c d => c.number < d.number
  reached : ∀ c ∈ story, ∀ n ∈ c.nodes, c.Route c.entry n.id

/-- The scenes at the ends of a chapter. -/
def Chapter.closings (c : Chapter) : List Scene :=
  (c.ofKind .chapterEnd).map fun n => ⟨c.number, n.id⟩

/-! ## Builds without diagnostics -/

/-- A build with an empty report ships a connected story. -/
theorem Manuscript.connectedStory_of_report_eq_nil {e : Edition} {m : Manuscript}
    (h : (m.build e).report = []) : ConnectedStory (m.build e).chapters where
  toSoundStory := soundStory_of_errors_eq_nil (by rw [h]; rfl)
  increasing := pairwise_lt_chapters_compile
  reached c hc n hn := by
    have hs := soundStory_of_errors_eq_nil (e := e) (m := m) (by rw [h]; rfl)
    by_contra hunreached
    have hproblem : .unreachableNode c.number n.id ∈ c.problems
        ((m.build e).chapters.map Chapter.number) (lastNumber (m.build e).chapters) := by
      refine List.mem_append_right _ ?_
      exact (Chapter.mem_reachProblems_iff (hs.ids c hc)).mpr
        ⟨(hs.chapters c hc).entry, n, hn, rfl, hunreached⟩
    have hreport := mem_report_of_mem_problems hc hproblem
    rw [h] at hreport
    exact List.not_mem_nil hreport

/-! ## Numbers without gaps -/

/-- Numbers that strictly increase, and that hold the successor of each but the highest, have
no gaps. -/
theorem eq_range'_of_succ_mem {first : Nat} {rest : List Nat}
    (hincreasing : (first :: rest).Pairwise (· < ·))
    (hsucc : ∀ n ∈ first :: rest, n + 1 ∈ first :: rest ∨ ∀ k ∈ first :: rest, k ≤ n) :
    first :: rest = List.range' first (rest.length + 1) := by
  induction rest generalizing first with
  | nil => rfl
  | cons next rest ih =>
      obtain ⟨hfirst, hrest⟩ := List.pairwise_cons.mp hincreasing
      have hlt : first < next := hfirst next (List.mem_cons_self ..)
      have hmem : first + 1 ∈ next :: rest := by
        rcases hsucc first (List.mem_cons_self ..) with hmem | hmax
        · exact (List.mem_cons.mp hmem).resolve_left (by omega)
        · have hle := hmax next (List.mem_cons_of_mem _ (List.mem_cons_self ..))
          omega
      have hnext : next = first + 1 := by
        rcases List.mem_cons.mp hmem with heq | hmem
        · exact heq.symm
        · have hafter := (List.pairwise_cons.mp hrest).1 _ hmem
          omega
      have htail : next :: rest = List.range' next (rest.length + 1) := by
        refine ih hrest fun n hn => ?_
        rcases hsucc n (List.mem_cons_of_mem _ hn) with hmem | hmax
        · have hn' := hfirst n hn
          exact .inl ((List.mem_cons.mp hmem).resolve_left (by omega))
        · exact .inr fun k hk => hmax k (List.mem_cons_of_mem _ hk)
      calc first :: next :: rest
          = first :: List.range' (first + 1) (rest.length + 1) := by rw [htail, hnext]
        _ = List.range' first ((next :: rest).length + 1) := (List.range'_succ ..).symm

namespace ConnectedStory

/-- The end of a chapter, which is the only one. -/
theorem exists_ofKind_chapterEnd (hs : ConnectedStory story) (hc : c ∈ story) :
    ∃ n, c.ofKind .chapterEnd = [n] ∧ n ∈ c.nodes ∧
      n.next = if c.number = lastNumber story then .ending else .chapter (c.number + 1) := by
  have hsound := hs.chapters c hc
  obtain ⟨n, hn⟩ := (Chapter.ofKind_eq_singleton_iff (hs.ids c hc)).mpr hsound.oneEnd
  obtain ⟨hmem, hkind⟩ := Chapter.mem_of_ofKind_eq_singleton hn
  exact ⟨n, hn, hmem, hsound.endLink n hmem hkind⟩

/-- Every chapter but the last has one after it. -/
theorem succ_number_mem (hs : ConnectedStory story) (hc : c ∈ story)
    (hlast : c.number ≠ lastNumber story) : c.number + 1 ∈ story.map Chapter.number := by
  obtain ⟨n, _, hn, hnext⟩ := hs.exists_ofKind_chapterEnd hc
  have hpermits := (hs.chapters c hc).links n hn
  rw [hnext, if_neg hlast] at hpermits
  exact hpermits.2

/-- The numbers of a connected story have no gaps. -/
theorem map_number_eq_range' (hs : ConnectedStory story) {first : Chapter}
    (hfirst : story.head? = some first) :
    story.map Chapter.number = List.range' first.number story.length := by
  obtain ⟨rest, rfl⟩ := List.head?_eq_some_iff.mp hfirst
  have hnumbers := List.pairwise_map.mpr hs.increasing
  rw [List.map_cons] at hnumbers
  have hrange := eq_range'_of_succ_mem hnumbers fun n hn => ?_
  · simpa using hrange
  · obtain ⟨c, hc, rfl⟩ := List.mem_map.mp (List.map_cons ▸ hn)
    by_cases hlast : c.number = lastNumber (first :: rest)
    · refine .inr fun k hk => ?_
      obtain ⟨d, hd, rfl⟩ := List.mem_map.mp (List.map_cons ▸ hk)
      exact hlast ▸ number_le_lastNumber hd
    · exact .inl (hs.succ_number_mem hc hlast)

/-- Each chapter is followed by the one of the next number. -/
theorem isChain_number (hs : ConnectedStory story) :
    story.IsChain fun c d => d.number = c.number + 1 := by
  cases hfirst : story.head? with
  | none => simp [List.head?_eq_none_iff.mp hfirst]
  | some first =>
      have hrange : (story.map Chapter.number).IsChain fun a b => b = a + 1 := by
        rw [hs.map_number_eq_range' hfirst]
        exact List.isChain_range' ..
      exact (List.isChain_map Chapter.number).mp hrange

/-! ## From end to end -/

/-- A player gets from the entry of a chapter to its end. -/
theorem walk_closing (hs : ConnectedStory story) (hc : c ∈ story)
    (hend : c.ofKind .chapterEnd = [n]) : Walk story c.opening ⟨c.number, n.id⟩ :=
  walk_of_route hc (hs.reached c hc n (Chapter.mem_of_ofKind_eq_singleton hend).1)

/-- The end of a chapter leads to the entry of the one after it. -/
theorem step_of_closing (hs : ConnectedStory story) (hc : c ∈ story) (hd : d ∈ story)
    (hnumber : d.number = c.number + 1) (hend : c.ofKind .chapterEnd = [n]) :
    Step story ⟨c.number, n.id⟩ d.opening := by
  obtain ⟨m, hm, hmem, hnext⟩ := hs.exists_ofKind_chapterEnd hc
  obtain rfl : m = n := by simpa [hend] using hm.symm
  have hlast : c.number ≠ lastNumber story := by
    have hle := number_le_lastNumber hd
    omega
  rw [if_neg hlast, ← hnumber] at hnext
  exact .chapter (shows_of_mem hc hmem) hnext hd

/-- A player passes the ends of chapters that follow each other in turn. -/
theorem isChain_closings_of_isChain (hs : ConnectedStory story) {rest : List Chapter}
    (hmem : ∀ d ∈ c :: rest, d ∈ story)
    (hchain : (c :: rest).IsChain fun c d => d.number = c.number + 1) :
    (c.opening :: (c :: rest).flatMap Chapter.closings).IsChain (Walk story) := by
  induction rest generalizing c with
  | nil =>
      have hc := hmem c (List.mem_cons_self ..)
      obtain ⟨n, hend, _⟩ := hs.exists_ofKind_chapterEnd hc
      simpa [Chapter.closings, hend] using hs.walk_closing hc hend
  | cons d rest ih =>
      have hc := hmem c (List.mem_cons_self ..)
      have hd := hmem d (List.mem_cons_of_mem _ (List.mem_cons_self ..))
      obtain ⟨n, hend, _⟩ := hs.exists_ofKind_chapterEnd hc
      obtain ⟨hnumber, hchain⟩ := List.isChain_cons_cons.mp hchain
      have hstep := hs.step_of_closing hc hd hnumber hend
      have hrest := ih (fun d' hd' => hmem d' (List.mem_cons_of_mem _ hd')) hchain
      have hcons : (c :: d :: rest).flatMap Chapter.closings =
          ⟨c.number, n.id⟩ :: (d :: rest).flatMap Chapter.closings := by
        rw [List.flatMap_cons, Chapter.closings, hend]
        rfl
      rw [hcons]
      exact List.isChain_cons_cons.mpr
        ⟨hs.walk_closing hc hend, hrest.imp_head fun hwalk => hwalk.head hstep⟩

theorem isChain_closings (hs : ConnectedStory story) {first : Chapter}
    (hfirst : story.head? = some first) :
    (first.opening :: story.flatMap Chapter.closings).IsChain (Walk story) := by
  have hchain := hs.isChain_number
  obtain ⟨rest, rfl⟩ := List.head?_eq_some_iff.mp hfirst
  exact hs.isChain_closings_of_isChain (fun _ hd => hd) hchain

/-- A player gets from the entry of a chapter to that of the next. -/
theorem walk_next (hs : ConnectedStory story) (hc : c ∈ story) (hd : d ∈ story)
    (hnumber : d.number = c.number + 1) : Walk story c.opening d.opening := by
  obtain ⟨n, hend, _⟩ := hs.exists_ofKind_chapterEnd hc
  exact (hs.walk_closing hc hend).tail (hs.step_of_closing hc hd hnumber hend)

/-- A player gets from the entry of the first chapter to that of any. -/
theorem walk_opening (hs : ConnectedStory story) {first : Chapter}
    (hfirst : story.head? = some first) (hc : c ∈ story) : Walk story first.opening c.opening := by
  have hchain : (story.map Chapter.opening).IsChain (Walk story) := by
    refine (List.isChain_map _).mpr (hs.isChain_number.imp_of_mem_imp fun c d hc hd hnumber => ?_)
    exact hs.walk_next hc hd hnumber
  obtain ⟨rest, rfl⟩ := List.head?_eq_some_iff.mp hfirst
  rcases List.mem_cons.mp hc with rfl | hc
  · exact .refl
  · have : IsTrans Scene (Walk (first :: rest)) := ⟨fun _ _ _ => Relation.ReflTransGen.trans⟩
    have hpairs := List.isChain_iff_pairwise.mp hchain
    exact (List.pairwise_cons.mp hpairs).1 _ (List.mem_map_of_mem hc)

/-- The ends that a player passes belong to the chapters in turn. -/
theorem map_chapter_closings (hs : ConnectedStory story) :
    (story.flatMap Chapter.closings).map Scene.chapter = story.map Chapter.number := by
  rw [List.map_flatMap, List.map_eq_flatMap]
  refine List.flatMap_congr fun c hc => ?_
  obtain ⟨n, hend, _⟩ := hs.exists_ofKind_chapterEnd hc
  rw [Chapter.closings, hend]
  rfl

/-- The last chapter of the list is the one of the highest number. -/
theorem number_eq_lastNumber (hs : ConnectedStory story) {before : List Chapter} {last : Chapter}
    (h : story = before ++ [last]) : last.number = lastNumber story := by
  have hincreasing := hs.increasing
  have hmem : last ∈ story := by simp [h]
  by_contra hne
  obtain ⟨d, hd, hnumber⟩ := List.mem_map.mp (hs.succ_number_mem hmem hne)
  rw [h] at hd hincreasing
  rcases List.mem_append.mp hd with hd | hd
  · have hlt := (List.pairwise_append.mp hincreasing).2.2 d hd last (List.mem_singleton.mpr rfl)
    omega
  · obtain rfl := List.mem_singleton.mp hd
    omega

/-- At the last of the ends the story ends. -/
theorem exists_getLast?_closings (hs : ConnectedStory story) (hne : story ≠ []) :
    ∃ s n, (story.flatMap Chapter.closings).getLast? = some s ∧ s.Shows story n ∧
      n.next = .ending := by
  obtain ⟨before, last, hstory⟩ := (List.eq_nil_or_concat' story).resolve_left hne
  have hmem : last ∈ story := by simp [hstory]
  obtain ⟨n, hend, hn, hnext⟩ := hs.exists_ofKind_chapterEnd hmem
  rw [if_pos (hs.number_eq_lastNumber hstory)] at hnext
  refine ⟨⟨last.number, n.id⟩, n, ?_, shows_of_mem hmem hn, hnext⟩
  rw [hstory, List.flatMap_append, List.flatMap_singleton, Chapter.closings, hend]
  exact List.getLast?_concat

end ConnectedStory

/-- A build with an empty report ships a story in one piece.  The numbers of its chapters have
no gaps.  A player who begins at the entry of the first chapter can come to every node.  In
every chapter the one investigation leads to the one end.  A player can pass the ends of all
chapters in turn, and at the last of them the story ends. -/
theorem connected_of_report_eq_nil (e : Edition) (m : Manuscript)
    (h : (m.build e).report = []) {first : Chapter}
    (hfirst : (m.build e).chapters.head? = some first) :
    (m.build e).chapters.map Chapter.number =
      List.range' first.number (m.build e).chapters.length ∧
    (∀ c ∈ (m.build e).chapters, ∀ n ∈ c.nodes,
      Walk (m.build e).chapters first.opening ⟨c.number, n.id⟩) ∧
    (∀ c ∈ (m.build e).chapters, ∃ investigation ending,
      c.ofKind .investigation = [investigation] ∧ c.ofKind .chapterEnd = [ending] ∧
      c.Route investigation.id ending.id) ∧
    ((m.build e).chapters.flatMap Chapter.closings).map Scene.chapter =
      (m.build e).chapters.map Chapter.number ∧
    (first.opening :: (m.build e).chapters.flatMap Chapter.closings).IsChain
      (Walk (m.build e).chapters) ∧
    ∃ s n, ((m.build e).chapters.flatMap Chapter.closings).getLast? = some s ∧
      s.Shows (m.build e).chapters n ∧ n.next = .ending := by
  have hs := Manuscript.connectedStory_of_report_eq_nil h
  have hne : (m.build e).chapters ≠ [] := by
    rintro hnil
    simp [hnil] at hfirst
  refine ⟨hs.map_number_eq_range' hfirst, fun c hc n hn => ?_, fun c hc => ?_,
    hs.map_chapter_closings, hs.isChain_closings hfirst, hs.exists_getLast?_closings hne⟩
  · exact (hs.walk_opening hfirst hc).trans (walk_of_route hc (hs.reached c hc n hn))
  · have hsound := hs.chapters c hc
    obtain ⟨i, hi⟩ :=
      (Chapter.ofKind_eq_singleton_iff (hs.ids c hc)).mpr hsound.oneInvestigation
    obtain ⟨n, hend, _⟩ := hs.exists_ofKind_chapterEnd hc
    obtain ⟨hiMem, hiKind⟩ := Chapter.mem_of_ofKind_eq_singleton hi
    obtain ⟨hnMem, hnKind⟩ := Chapter.mem_of_ofKind_eq_singleton hend
    exact ⟨i, n, hi, hend, hsound.investigationEnds i hiMem hiKind n hnMem hnKind⟩

theorem connected_twoNights : (twoNights.build ⟨"english", none⟩).report = [] ∧
    ∃ first, (twoNights.build ⟨"english", none⟩).chapters.head? = some first ∧
      (twoNights.build ⟨"english", none⟩).chapters.map Chapter.number = [1, 2] ∧
      List.IsChain (Walk (twoNights.build ⟨"english", none⟩).chapters)
        [⟨1, "CH1_START"⟩, ⟨1, "CH1_END"⟩, ⟨2, "CH2_END"⟩] := by
  have hreport := (plain_twoNights none).report_of_lastChapter_none rfl
  obtain ⟨first, second, hfirst, hsecond, hcompile⟩ := compile_twoNights
  have hchapters : (twoNights.build ⟨"english", none⟩).chapters = [first, second] :=
    congrArg Compilation.chapters hcompile
  have hhead : (twoNights.build ⟨"english", none⟩).chapters.head? = some first := by
    rw [hchapters]
    rfl
  obtain ⟨hnumbers, _, _, _, hchain, _⟩ := connected_of_report_eq_nil _ _ hreport hhead
  have hclosings : first.opening ::
      (twoNights.build ⟨"english", none⟩).chapters.flatMap Chapter.closings =
      [⟨1, "CH1_START"⟩, ⟨1, "CH1_END"⟩, ⟨2, "CH2_END"⟩] := by
    rw [hchapters, ← Except.ok.inj hfirst, ← Except.ok.inj hsecond]
    rfl
  rw [hclosings] at hchain
  refine ⟨hreport, _, hhead, ?_, hchain⟩
  rw [hnumbers, hchapters, ChapterDraft.number_of_compile hfirst]
  rfl

end BranchingStory
