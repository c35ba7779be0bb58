import Mathlib.Algebra.GroupWithZero.Nat
import BranchingStory.Proofs.Files.Writing
import BranchingStory.Proofs.Numerals
import BranchingStory.Proofs.Publication.Manifest
import BranchingStory.Proofs.Publication.Rereading
import BranchingStory.Tool.ContentCompiler

/-!
# Shipping a build

A build without errors is shipped as one file for each record and one for the manifest.  The
names of the files are given by the numbers of the records, which are distinct, so no file takes
the place of another (`Build.nodup_documents`).  After a publication each of them can be read
under the path that the manifest names, and its text is the value that was written
(`Manuscript.ships_of_publish`).  The documents of the records are found in these values, if the
numbers of the build are words (`Manuscript.rereads_of_ships`).  A build with errors ships nothing
(`publish_of_build`).
-/

namespace BranchingStory

/-! ## Names of files -/

/-- The file of a record by its number. -/
theorem Path.plain_numbered (dir word : String) (hdir : '/' ∉ dir.toList)
    (hword : '/' ∉ word.toList) (hdirLength : 2 < dir.length) (number : Nat) :
    Plain (dir ++ "/" ++ (word ++ number.repr ++ ".json")) := by
  refine plain_pair ⟨hdir, hdirLength⟩ ⟨?_, ?_⟩
  · simp only [String.toList_append, List.mem_append, not_or]
    exact ⟨⟨hword, notMem_repr rfl number⟩, by decide⟩
  · rw [String.length_append, show ".json".length = 5 from rfl]
    omega

theorem plain_chapterFile (number : Nat) : Path.Plain (chapterFile number) := by
  have hplain := Path.plain_numbered "main" "chapter_" (by decide) (by decide) (by decide) number
  simpa [chapterFile, ← String.append_assoc] using hplain

theorem plain_caseFile (number : Nat) : Path.Plain (caseFile number) := by
  have hplain := Path.plain_numbered "side" "case_" (by decide) (by decide) (by decide) number
  simpa [caseFile, ← String.append_assoc] using hplain

theorem plain_manifestFile : Path.Plain manifestFile where
  relative := by decide
  names := by decide

theorem chapterFile_inj {n k : Nat} : chapterFile n = chapterFile k ↔ n = k := by
  simp [chapterFile, String.append_left_inj, String.append_right_inj, Nat.repr_inj]

theorem caseFile_inj {n k : Nat} : caseFile n = caseFile k ↔ n = k := by
  simp [caseFile, String.append_left_inj, String.append_right_inj, Nat.repr_inj]

theorem chapterFile_ne_caseFile {n k : Nat} : chapterFile n ≠ caseFile k := by
  simp [chapterFile, caseFile, ← String.toList_inj]

theorem chapterFile_ne_manifestFile {n : Nat} : chapterFile n ≠ manifestFile := by
  simp [chapterFile, manifestFile, ← String.toList_inj]

theorem caseFile_ne_manifestFile {n : Nat} : caseFile n ≠ manifestFile := by
  simp [caseFile, manifestFile, ← String.toList_inj]

/-! ## Documents in files -/

namespace FileTree

variable {t : FileTree} {path : String} {v : Json}

/-- The value in a file, if there is one. -/
def value? (t : FileTree) (path : String) : Option Json := (t.read? path).bind Json.parse?

/-- The record that a reader finds in a file. -/
def record? {α : Type} (t : FileTree) (decode : Json → Option α) (path : String) : Option α :=
  (t.value? path).bind decode

/-- The file has the text that is written for the value, and whoever reads it finds the value. -/
structure Stores (t : FileTree) (path : String) (v : Json) : Prop where
  text : t.read path = .ok (Build.fileText v)
  value : t.value? path = some v

theorem stores_of_read (hv : v.Plain) (h : t.read path = .ok (Build.fileText v)) :
    t.Stores path v := by
  refine ⟨h, ?_⟩
  rw [value?, read?, h]
  exact Json.parse?_pretty_newline hv

theorem Stores.record?_eq {α : Type} {decode : Json → Option α} {a : α} (h : t.Stores path v)
    (ha : Json.Encodes decode v a) : t.record? decode path = some a := by
  rw [record?, h.value]
  exact ha.decodes

end FileTree

/-! ## The files of a build -/

namespace Build

/-- The documents of a publication under the paths that the manifest has for them. -/
def documents (b : Build) (manifest : Manifest) : List (String × Json) :=
  (b.chapters.map fun c => (chapterFile c.number, (ChapterDocument.ofChapter c).toJson))
    ++ (b.cases.map fun c => (caseFile c.number, (CaseDocument.ofCase c).toJson))
    ++ [(manifestFile, manifest.toJson)]

variable {b : Build} {manifest : Manifest}

/-- The files of a publication are its documents in the directory. -/
theorem files_eq (b : Build) (manifest : Manifest) (dir : String) :
    b.files manifest dir =
      (b.documents manifest).map fun file => (Path.join dir file.1, fileText file.2) := by
  simp only [files, documents, List.map_append, List.map_map, List.map_cons, List.map_nil]
  rfl

theorem map_fst_files (b : Build) (manifest : Manifest) (dir : String) :
    (b.files manifest dir).map Prod.fst =
      ((b.documents manifest).map Prod.fst).map (Path.join dir) := by
  rw [files_eq, List.map_map, List.map_map]
  rfl

theorem map_fst_documents (b : Build) (manifest : Manifest) :
    (b.documents manifest).map Prod.fst =
      (b.chapters.map Chapter.number).map chapterFile ++ (b.cases.map Case.number).map caseFile
        ++ [manifestFile] := by
  simp only [documents, List.map_append, List.map_map, List.map_cons, List.map_nil]
  rfl

theorem plain_fst_documents : ∀ file ∈ b.documents manifest, Path.Plain file.1 := by
  simp only [documents, List.forall_mem_append, List.forall_mem_map, List.forall_mem_singleton]
  exact ⟨⟨fun c _ => plain_chapterFile c.number, fun c _ => plain_caseFile c.number⟩,
    plain_manifestFile⟩

theorem plain_snd_documents : ∀ file ∈ b.documents manifest, file.2.Plain := by
  simp only [documents, List.forall_mem_append, List.forall_mem_map, List.forall_mem_singleton]
  exact ⟨⟨fun _ _ => ChapterDocument.plain_toJson _, fun _ _ => CaseDocument.plain_toJson _⟩,
    manifest.plain_toJson⟩

/-- Distinct numbers give distinct files. -/
theorem nodup_documents (hchapters : (b.chapters.map Chapter.number).Nodup)
    (hcases : (b.cases.map Case.number).Nodup) :
    ((b.documents manifest).map Prod.fst).Nodup := by
  rw [map_fst_documents, List.nodup_append, List.nodup_append]
  refine ⟨⟨hchapters.map fun _ _ => chapterFile_inj.mp, hcases.map fun _ _ => caseFile_inj.mp, ?_⟩,
    List.nodup_singleton _, ?_⟩
  · simp only [List.forall_mem_map]
    exact fun _ _ _ _ => chapterFile_ne_caseFile
  · simp only [List.forall_mem_append, List.forall_mem_map, List.forall_mem_singleton]
    exact ⟨fun _ _ => chapterFile_ne_manifestFile, fun _ _ => caseFile_ne_manifestFile⟩

/-- The paths in the directory differ if those of the documents do. -/
theorem nodup_map_join {dir : String} (hdistinct : ((b.documents manifest).map Prod.fst).Nodup) :
    (((b.documents manifest).map Prod.fst).map (Path.join dir)).Nodup := by
  refine (List.nodup_map_iff_inj_on hdistinct).mpr fun path hpath path' hpath' hjoin => ?_
  obtain ⟨file, hfile, rfl⟩ := List.mem_map.mp hpath
  obtain ⟨file', hfile', rfl⟩ := List.mem_map.mp hpath'
  exact (Path.join_inj (plain_fst_documents _ hfile).relative
    (plain_fst_documents _ hfile').relative).mp hjoin

/-- After all files are written, each of them stores its document. -/
theorem stores_of_writeAll {t t' : FileTree} {dir : String}
    (hdistinct : ((b.documents manifest).map Prod.fst).Nodup)
    (h : t.writeAll (b.files manifest dir) = (t', true)) :
    ∀ file ∈ b.documents manifest, t'.Stores (Path.join dir file.1) file.2 := by
  have htexts : t.writeAll (((b.documents manifest).map fun file =>
      (file.1, fileText file.2)).map fun file => (Path.join dir file.1, file.2)) = (t', true) := by
    rw [List.map_map]
    exact files_eq b manifest dir ▸ h
  intro file hfile
  refine FileTree.stores_of_read (plain_snd_documents file hfile) ?_
  refine List.forall_mem_map.mp (FileTree.read_of_writeAll_join ?_ ?_ htexts) file hfile
  · exact List.forall_mem_map.mpr plain_fst_documents
  · rw [List.map_map]
    exact hdistinct

/-- The written files are those that the manifest names, in its order, and each of them stores
the document of its record. -/
structure Ships (b : Build) (manifest : Manifest) (dir : String) (t : FileTree)
    (written : List String) : Prop where
  paths : written = (manifest.chapters.map ChapterEntry.file ++ manifest.cases.map CaseEntry.file
    ++ [manifestFile]).map (Path.join dir)
  distinct : written.Nodup
  chapters : List.Forall₂ (fun entry c =>
    t.Stores (Path.join dir (ChapterEntry.file entry)) (ChapterDocument.ofChapter c).toJson)
    manifest.chapters b.chapters
  cases : List.Forall₂ (fun entry c =>
    t.Stores (Path.join dir (CaseEntry.file entry)) (CaseDocument.ofCase c).toJson)
    manifest.cases b.cases
  manifest : t.Stores (Path.join dir manifestFile) manifest.toJson

/-- The numbers of the build are words: those of records of 32 bits, and counts of 64 bits. -/
structure FitsWords (b : Build) : Prop where
  numbers : ∀ c ∈ b.chapters, c.number ≤ maxRecordNumber
  chapters : b.chapters.length ≤ maxCount
  cases : b.cases.length ≤ maxCount
  nodes : (b.chapters.flatMap Chapter.nodes).length ≤ maxCount
  tracks : ∀ c ∈ b.chapters, c.tracks.length ≤ maxCount
  questions : ∀ c ∈ b.cases, c.questions.length ≤ maxCount
  hints : ∀ c ∈ b.cases, c.hints.length ≤ maxCount

/-- A reader finds in each file the record that the manifest has there.  The document of a chapter
is as its entry describes it. -/
structure Rereads (b : Build) (reference : String) (manifest : Manifest) (dir : String)
    (t : FileTree) : Prop where
  chapters : List.Forall₂ (fun entry c => ∃ d,
    t.record? ChapterDocument.ofJson? (Path.join dir (ChapterEntry.file entry)) = some d ∧
    entry.Describes reference c d) manifest.chapters b.chapters
  cases : List.Forall₂ (fun entry c =>
    t.record? CaseDocument.ofJson? (Path.join dir (CaseEntry.file entry)) = some (.ofCase c))
    manifest.cases b.cases
  manifest : t.record? Manifest.ofJson? (Path.join dir manifestFile) = some manifest

/-- What a publication writes if every file can be written. -/
theorem publish_eq_ok_iff {t t' : FileTree} {dir : String} {written : List String}
    (h : b.manifest = some manifest) :
    b.publish t dir = (t', .ok written) ↔
      t.writeAll (b.files manifest dir) = (t', true) ∧
        written = (b.files manifest dir).map Prod.fst := by
  rw [publish, h]
  dsimp only
  rcases t.writeAll (b.files manifest dir) with ⟨after, _ | _⟩ <;> simp [eq_comm]

end Build

variable {e : Edition} {m : Manuscript} {manifest : Manifest}

namespace Manuscript

/-- The documents of a build have paths of their own. -/
theorem nodup_documents_build (manifest : Manifest) :
    (((m.build e).documents manifest).map Prod.fst).Nodup :=
  Build.nodup_documents nodup_number_chapters_compile
    (List.pairwise_map.mpr (pairwise_lt_cases_compile.imp Nat.ne_of_lt))

/-- A publication without a failing file ships the build. -/
theorem ships_of_publish (h : (m.build e).manifest = some manifest) {t t' : FileTree}
    {dir : String} {written : List String}
    (hpublish : (m.build e).publish t dir = (t', .ok written)) :
    (m.build e).Ships manifest dir t' written := by
  obtain ⟨hwrite, rfl⟩ := (Build.publish_eq_ok_iff h).mp hpublish
  have hdistinct := nodup_documents_build (e := e) (m := m) manifest
  have hstores := Build.stores_of_writeAll hdistinct hwrite
  simp only [Build.documents, List.forall_mem_append, List.forall_mem_map,
    List.forall_mem_singleton] at hstores
  obtain ⟨⟨hchapters, hcases⟩, hmanifest⟩ := hstores
  have hentries := Manifest.eq_of_build h
  refine ⟨?_, ?_, ?_, ?_, hmanifest⟩
  · rw [Build.map_fst_files, Build.map_fst_documents, hentries]
    simp only [List.map_map]
    rfl
  · rw [Build.map_fst_files]
    exact Build.nodup_map_join hdistinct
  · rw [hentries, List.forall₂_map_left_iff, List.forall₂_same]
    exact hchapters
  · rw [hentries, List.forall₂_map_left_iff, List.forall₂_same]
    exact hcases

/-- The numbers in the links of a chapter are words if the numbers of the chapters are, since no
link of a build without errors leads to a chapter that is not there. -/
theorem fitsWords_of_mem_chapters (herrors : (m.build e).report.errors = [])
    (hfits : (m.build e).FitsWords) {c : Chapter} (hc : c ∈ (m.build e).chapters) :
    c.FitsWords where
  number := hfits.numbers c hc
  links n hn number hnext := by
    have hpermits := ((soundStory_of_errors_eq_nil herrors).chapters c hc).links n hn
    rw [hnext] at hpermits
    obtain ⟨next, hnextChapter, rfl⟩ := List.mem_map.mp hpermits.2
    exact hfits.numbers next hnextChapter
  nodes := (length_nodes_le_of_mem hc).trans hfits.nodes
  tracks := hfits.tracks c hc

/-- What is shipped can be reread. -/
theorem rereads_of_ships (herrors : (m.build e).report.errors = [])
    (h : (m.build e).manifest = some manifest) (hfits : (m.build e).FitsWords) {t : FileTree}
    {dir : String} {written : List String} (hships : (m.build e).Ships manifest dir t written) :
    (m.build e).Rereads e.reference manifest dir t := by
  have hdescribes := Manifest.describes_of_build h
  have hmanifest := Manifest.fitsWords_of_build (Manifest.build_eq_ok_iff.mpr h) hfits.chapters
    hfits.cases hfits.nodes hfits.numbers
  obtain rfl := Manifest.eq_of_build h
  obtain ⟨_, _, hchapters, hcases, hstored⟩ := hships
  refine ⟨?_, ?_, hstored.record?_eq (Manifest.encodes hmanifest)⟩
  · simp only [List.forall₂_map_left_iff, List.forall₂_same] at hchapters hdescribes ⊢
    intro c hc
    have hencodes := ChapterDocument.encodes (fitsWords_of_mem_chapters herrors hfits hc).ofChapter
    exact ⟨_, (hchapters c hc).record?_eq hencodes, hdescribes c hc⟩
  · simp only [List.forall₂_map_left_iff, List.forall₂_same] at hcases ⊢
    intro c hc
    obtain ⟨d, _, hd⟩ := mem_cases_compile_iff.mp hc
    refine (hcases c hc).record?_eq (CaseDocument.encodes ?_ ?_ ?_)
    · exact CaseDraft.named_of_compile hd
    · exact hfits.questions c hc
    · exact hfits.hints c hc

end Manuscript

/-- Without a manifest the content compiler prints the report, and writes no file. -/
theorem Tool.ContentCompiler.run_of_manifest_none {arguments : List String} {files : FileTree}
    {a : Arguments} {s : Settings} (harguments : Arguments.parse arguments = .ok a)
    (hsettings : loadSettings files a.config = .ok s)
    (hmanuscript : (a.apply s).manuscript files = .ok m)
    (hnone : (m.build (a.apply s).edition).manifest = none) :
    run arguments files = ⟨(m.build (a.apply s).edition).exitCode,
      printed a.json (m.build (a.apply s).edition).report, [], files⟩ := by
  simp only [run, harguments, hsettings, runWith, hmanuscript, hnone, Option.isNone_none,
    Bool.or_true, if_true]

/-- A build is shipped as its manifest says, or not at all.  There is a manifest exactly if the
report has no error.  Without one nothing is written, the refusal counts the errors, and the
content compiler fails.  With one, the manifest describes every chapter, and every publication
that can write its files ships the build.  A reader who then looks into the files finds the
records there that the manifest describes, as long as their numbers are words. -/
theorem publish_of_build (e : Edition) (m : Manuscript) {b : Build} (hb : m.build e = b) :
    (b.manifest.isSome = true ↔ b.report.errors = []) ∧
    (b.exitCode = 0 ↔ b.report.errors = []) ∧
    (b.manifest = none →
      1 ≤ b.report.errors.length ∧
      (∀ t dir, b.publish t dir = (t, .error (.manifest ⟨b.report.errors.length⟩))) ∧
      ∀ arguments files a s,
        Tool.ContentCompiler.Arguments.parse arguments = .ok a →
        Tool.loadSettings files a.config = .ok s →
        (a.apply s).manuscript files = .ok m → (a.apply s).edition = e →
        (Tool.ContentCompiler.run arguments files).exitCode = 1 ∧
        (Tool.ContentCompiler.run arguments files).files = files) ∧
    ∀ manifest, b.manifest = some manifest →
      manifest.content.totalNodes = (manifest.chapters.map ChapterEntry.nodes).sum ∧
      List.Forall₂ (fun entry c => ChapterEntry.Describes entry e.reference c (.ofChapter c))
        manifest.chapters b.chapters ∧
      ∀ t dir t' written, b.publish t dir = (t', .ok written) →
        b.Ships manifest dir t' written ∧
        (b.FitsWords → b.Rereads e.reference manifest dir t') := by
  subst hb
  have hmanifest : (m.build e).manifest.isSome = true ↔ (m.build e).report.errors = [] := by
    rw [Manuscript.isSome_manifest_build]
    simp [Report.hasErrors, Report.errors]
  refine ⟨hmanifest, Report.exitCode_eq_zero_iff, fun hnone => ?_, fun manifest hsome => ?_⟩
  · have herrors : (m.build e).report.errors ≠ [] := by
      rw [Ne, ← hmanifest, hnone]
      simp
    refine ⟨List.length_pos_iff.mpr herrors, fun t dir => ?_, ?_⟩
    · rw [Build.publish, hnone]
    · intro arguments files a s harguments hsettings hmanuscript hedition
      subst hedition
      rw [Tool.ContentCompiler.run_of_manifest_none harguments hsettings hmanuscript hnone]
      exact ⟨Report.exitCode_eq_one_iff.mpr herrors, rfl⟩
  · refine ⟨?_, Manifest.describes_of_build hsome, fun t dir t' written hpublish => ?_⟩
    · rw [Manifest.eq_of_build hsome, List.map_map, List.length_flatMap]
      rfl
    · have hships := m.ships_of_publish hsome hpublish
      have herrors := hmanifest.mp (by rw [hsome]; rfl)
      exact ⟨hships, fun hfits => m.rereads_of_ships herrors hsome hfits hships⟩

theorem report_nightsAndCase : (nightsAndCase.build ⟨"english", none⟩).report = [] := by
  have hclean : ∀ d ∈ [lighthouse], ∃ c, d.compile (twoNights.editionOf ⟨"english", none⟩) = .ok c ∧
      c.problems = [] :=
    List.forall_mem_singleton.mpr ⟨lighthouse.assemble, rfl, problems_lighthouse⟩
  exact (Manuscript.report_build_of_clean_cases (m := twoNights) rfl (by decide) hclean).trans
    ((plain_twoNights none).report_of_lastChapter_none rfl)

/-- The chapters that are compiled from the nights, with their figures. -/
theorem chapters_nightsAndCase : ∃ first second,
    (nightsAndCase.build ⟨"english", none⟩).chapters = [first, second] ∧
    (first.number = 1 ∧ first.nodes.length = 6 ∧ first.tracks.length = 2 ∧ "WHO" ∈ first.ids) ∧
    second.number = 2 ∧ second.nodes.length = 3 ∧ second.tracks.length = 0 := by
  obtain ⟨first, second, hfirst, hsecond, hchapters, _⟩ := compile_nightsAndCase
  refine ⟨first, second, hchapters, ?_, ?_⟩
  · have hfigures : ∃ c, firstNight.compile (twoNights.editionOf ⟨"english", none⟩) = .ok c ∧
        c.number = 1 ∧ c.nodes.length = 6 ∧ c.tracks.length = 2 ∧ "WHO" ∈ c.ids :=
      ⟨_, rfl, rfl, rfl, rfl, by decide⟩
    obtain ⟨c, hc, hfigures⟩ := hfigures
    obtain rfl := Except.ok.inj (hc.symm.trans hfirst)
    exact hfigures
  · have hfigures : ∃ c, secondNight.compile (twoNights.editionOf ⟨"english", none⟩) = .ok c ∧
        c.number = 2 ∧ c.nodes.length = 3 ∧ c.tracks.length = 0 := ⟨_, rfl, rfl, rfl, rfl⟩
    obtain ⟨c, hc, hfigures⟩ := hfigures
    obtain rfl := Except.ok.inj (hc.symm.trans hsecond)
    exact hfigures

theorem cases_nightsAndCase :
    (nightsAndCase.build ⟨"english", none⟩).cases = [lighthouse.assemble] := by
  obtain ⟨_, _, _, _, _, hcases⟩ := compile_nightsAndCase
  exact hcases

theorem fitsWords_nightsAndCase : (nightsAndCase.build ⟨"english", none⟩).FitsWords := by
  obtain ⟨first, second, hchapters, ⟨hnumber, hnodes, htracks, _⟩, hnumber', hnodes', htracks'⟩ :=
    chapters_nightsAndCase
  have hsmall : ∀ n ≤ 9, n ≤ maxRecordNumber ∧ n ≤ maxCount := by decide
  constructor
  · simp [hchapters, hnumber, hnumber', hsmall]
  · simp [hchapters, hsmall]
  · simp [cases_nightsAndCase, hsmall]
  · simp [hchapters, hnodes, hnodes', hsmall]
  · simp [hchapters, htracks, htracks', hsmall]
  · rw [cases_nightsAndCase]
    decide
  · rw [cases_nightsAndCase]
    decide

/-- The files of the nights can be written into the directory of a server that has none yet. -/
theorem exists_writeAll_server (first second case manifest : String) :
    ∃ t', (FileTree.ofEntriesAt ["home", "author"] []).writeAll
      [("/srv/main/chapter_1.json", first), ("/srv/main/chapter_2.json", second),
        ("/srv/side/case_7.json", case), ("/srv/manifest.json", manifest)] = (t', true) := by
  have hparents : Path.parent "/srv/main/chapter_1.json" = "/srv/main" ∧
      Path.parent "/srv/main/chapter_2.json" = "/srv/main" ∧
      Path.parent "/srv/side/case_7.json" = "/srv/side" ∧
      Path.parent "/srv/manifest.json" = "/srv" := by decide
  simp only [FileTree.writeAll, FileTree.write, FileTree.save, hparents]
  exact ⟨_, rfl⟩

/-- The two nights and the case are shipped from the home of their author to the directory of a
server, and a reader finds the six nodes of the first night there. -/
theorem publish_of_build_nightsAndCase : ∃ manifest t' written,
    (nightsAndCase.build ⟨"english", none⟩).manifest = some manifest ∧
    (nightsAndCase.build ⟨"english", none⟩).publish (.ofEntriesAt ["home", "author"] []) "/srv" =
      (t', .ok written) ∧
    written = ["/srv/main/chapter_1.json", "/srv/main/chapter_2.json", "/srv/side/case_7.json",
      "/srv/manifest.json"] ∧
    (nightsAndCase.build ⟨"english", none⟩).Ships manifest "/srv" t' written ∧
    (nightsAndCase.build ⟨"english", none⟩).Rereads "english" manifest "/srv" t' ∧
    ∃ d, t'.record? ChapterDocument.ofJson? "/srv/main/chapter_1.json" = some d ∧
      "WHO" ∈ d.nodes ∧ d.metadata.nodeCount = 6 ∧ d.nodes.size = 6 := by
  obtain ⟨first, second, hchapters, ⟨hnumber, hnodes, _, hwho⟩, hnumber', _⟩ :=
    chapters_nightsAndCase
  obtain ⟨hsome, _, _, hpublish⟩ := publish_of_build ⟨"english", none⟩ nightsAndCase rfl
  obtain ⟨manifest, hmanifest⟩ :=
    Option.isSome_iff_exists.mp (hsome.mpr (by rw [report_nightsAndCase]; rfl))
  have hfiles : (nightsAndCase.build ⟨"english", none⟩).files manifest "/srv" =
      [("/srv/main/chapter_1.json", Build.fileText (ChapterDocument.ofChapter first).toJson),
        ("/srv/main/chapter_2.json", Build.fileText (ChapterDocument.ofChapter second).toJson),
        ("/srv/side/case_7.json",
          Build.fileText (CaseDocument.ofCase lighthouse.assemble).toJson),
        ("/srv/manifest.json", Build.fileText manifest.toJson)] := by
    simp only [Build.files, hchapters, cases_nightsAndCase, List.map_cons, List.map_nil,
      List.cons_append, List.nil_append, hnumber, hnumber']
    rfl
  obtain ⟨t', ht'⟩ := exists_writeAll_server _ _ _ _
  have hshipped := (Build.publish_eq_ok_iff hmanifest).mpr ⟨hfiles ▸ ht', rfl⟩
  obtain ⟨_, hdescribes, hships⟩ := hpublish manifest hmanifest
  obtain ⟨hships, hrereads⟩ := hships _ _ _ _ hshipped
  have hrereads := hrereads fitsWords_nightsAndCase
  refine ⟨manifest, t', _, hmanifest, hshipped, ?_, hships, hrereads, ?_⟩
  · rw [hfiles]
    rfl
  · have hread := hrereads.chapters
    rw [congrArg Manifest.chapters (Manifest.eq_of_build hmanifest), hchapters] at hread
    obtain ⟨⟨d, hd, hfirst⟩, _⟩ := List.forall₂_cons.mp hread
    have hfile : (Manifest.chapterEntry first).file = chapterFile 1 := congrArg chapterFile hnumber
    have hpath : Path.join "/srv" (chapterFile 1) = "/srv/main/chapter_1.json" := rfl
    rw [hfile, hpath] at hd
    refine ⟨d, hd, (hfirst.ids _).mpr hwho, ?_, ?_⟩
    · exact hfirst.nodeCount.trans hnodes
    · exact hfirst.size.trans hnodes

end BranchingStory
