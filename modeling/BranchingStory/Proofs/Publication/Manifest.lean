import BranchingStory.Proofs.Story.Compiled
import BranchingStory.Proofs.Translation.Coverage

/-!
# Manifests

What the manifest of a build says of its records.  The compiled records stand in the order of
their numbers already, so the manifest lists them in the same order (`Manifest.eq_of_build`).
The entry of a chapter says how many nodes a document of the chapter holds and which languages all
of them have (`ChapterEntry.Describes`).
-/

namespace BranchingStory

/-! ## Documents -/

namespace ChapterDocument

variable {c : Chapter}

theorem map_fst_nodes (c : Chapter) : (c.nodes.map fun n => (n.id, n)).map Prod.fst = c.ids :=
  List.map_map

/-- The nodes of a document are keyed by the names of the nodes. -/
theorem mem_nodes_iff {id : String} : id ∈ (ofChapter c).nodes ↔ id ∈ c.ids := by
  rw [ofChapter, Std.ExtTreeMap.mem_ofList, map_fst_nodes, List.contains_iff_mem]

/-- A document of a chapter with distinct names drops no node. -/
theorem size_nodes (h : c.ids.Nodup) : (ofChapter c).nodes.size = c.nodes.length := by
  have hdistinct : (c.nodes.map fun n => (n.id, n)).Pairwise fun a b =>
      ¬ compare a.1 b.1 = .eq := by
    refine (List.pairwise_map.mp (map_fst_nodes c ▸ h)).imp fun hne heq => hne ?_
    exact Std.LawfulEqOrd.compare_eq_iff_eq.mp heq
  rw [ofChapter, Std.ExtTreeMap.size_ofList hdistinct, List.length_map]

end ChapterDocument

/-! ## Languages -/

/-- The common languages of some nodes are those that every node has. -/
theorem mem_commonLanguages_iff {nodes : List Node} {language : String} (h : nodes ≠ []) :
    language ∈ commonLanguages nodes ↔ ∀ n ∈ nodes, n.text.contains language = true := by
  obtain ⟨first, rest, rfl⟩ := List.exists_cons_of_ne_nil h
  rw [commonLanguages, List.mem_filter, Std.ExtTreeMap.mem_keys, List.all_eq_true,
    List.forall_mem_cons, Std.ExtTreeMap.contains_iff_mem]

/-- The common languages stand in order, each once. -/
theorem pairwise_lt_commonLanguages (nodes : List Node) :
    (commonLanguages nodes).Pairwise (· < ·) := by
  cases nodes with
  | nil => exact .nil
  | cons first rest =>
      have hkeys : first.text.keys.Pairwise (· < ·) :=
        first.text.ordered_keys.imp fun h => compareOfLessAndEq_eq_lt.mp h
      exact hkeys.filter _

/-! ## Entries -/

/-- The document is one of the chapter and drops none of its nodes.  The entry tells their number,
and in order the languages that all of them have, among them the reference language. -/
structure ChapterEntry.Describes (entry : ChapterEntry) (reference : String) (c : Chapter)
    (d : ChapterDocument) : Prop where
  number : entry.chapter = c.number
  chapter : d.chapter = c.number
  ids : ∀ id, id ∈ d.nodes ↔ id ∈ c.ids
  size : d.nodes.size = entry.nodes
  nodeCount : d.metadata.nodeCount = entry.nodes
  sorted : entry.languages.Pairwise (· < ·)
  languages : ∀ language, language ∈ entry.languages ↔
    ∀ n ∈ c.nodes, n.text.contains language = true
  reference : reference ∈ entry.languages

variable {e : Edition} {m : Manuscript}

theorem ChapterDraft.describes_of_compile {d : ChapterDraft} {c : Chapter}
    (h : d.compile e = .ok c) :
    (Manifest.chapterEntry c).Describes e.reference c (.ofChapter c) := by
  have hnodes : c.nodes ≠ [] := by
    obtain ⟨n, ⟨hn, _⟩, _⟩ := existsUnique_investigation h
    exact List.ne_nil_of_mem hn
  exact
    { number := rfl
      chapter := rfl
      ids := fun _ => ChapterDocument.mem_nodes_iff
      size := ChapterDocument.size_nodes (nodup_ids_of_compile h)
      nodeCount := rfl
      sorted := pairwise_lt_commonLanguages c.nodes
      languages := fun _ => mem_commonLanguages_iff hnodes
      reference := (mem_commonLanguages_iff hnodes).mpr fun _ hn =>
        contains_of_compile h (.text hn) }

/-! ## Builds -/

theorem Manifest.build_eq_ok_iff {manifest : Manifest} :
    build (m.build e).chapters (m.build e).cases (m.build e).report = .ok manifest ↔
      (m.build e).manifest = some manifest := by
  change _ ↔ (build (m.build e).chapters (m.build e).cases (m.build e).report).toOption = _
  cases build (m.build e).chapters (m.build e).cases (m.build e).report <;>
    simp [Except.toOption]

/-- The manifest lists the records in the order of the build. -/
theorem Manifest.eq_of_build {manifest : Manifest} (h : (m.build e).manifest = some manifest) :
    manifest =
      { version := formatVersion
        content := ⟨(m.build e).chapters.length, (m.build e).cases.length,
          ((m.build e).chapters.flatMap Chapter.nodes).length⟩
        chapters := (m.build e).chapters.map chapterEntry
        cases := (m.build e).cases.map caseEntry } := by
  have hchapters : sortByNumber Chapter.number (m.build e).chapters = (m.build e).chapters :=
    sortByNumber_of_pairwise (Manuscript.pairwise_lt_chapters_compile.imp Nat.le_of_lt)
  have hcases : sortByNumber Case.number (m.build e).cases = (m.build e).cases :=
    sortByNumber_of_pairwise (Manuscript.pairwise_lt_cases_compile.imp Nat.le_of_lt)
  rw [← build_eq_ok_iff, build, hchapters, hcases] at h
  split at h
  · cases h
  · exact (Except.ok.inj h).symm

/-- Every chapter of a build is described by its entry. -/
theorem Manifest.describes_of_build {manifest : Manifest}
    (h : (m.build e).manifest = some manifest) :
    List.Forall₂ (fun entry c => ChapterEntry.Describes entry e.reference c (.ofChapter c))
      manifest.chapters (m.build e).chapters := by
  rw [eq_of_build h, List.forall₂_map_left_iff, List.forall₂_same]
  intro c hc
  obtain ⟨d, _, hd⟩ := Manuscript.mem_chapters_compile_iff.mp hc
  -- The chapter is compiled with the last number filled in, and with the same reference language.
  change (chapterEntry c).Describes (m.editionOf e).reference c (.ofChapter c)
  exact ChapterDraft.describes_of_compile hd

end BranchingStory
