import BranchingStory.Manuscript.Loading
import BranchingStory.Proofs.Files.Listing

/-!
# Loading accounts for every file

Each draft file of a directory gives either a record or a diagnostic, whatever the reader of the
records accepts, and the diagnostic gives the reason of the reader.  `Manuscript.Reads` says this
file by file, and `Manuscript.load_accounts` says it of a manuscript, for which two directories are
read.

A file that is no record stays alone with it.  If the file of a record is replaced by one that is no
record, that record is lost and a diagnostic comes in, and all the others stay in their order
(`Manuscript.Loses`): no other file is read under a path that leads to the replaced one
(`Manuscript.readFile_replace`).
-/

namespace BranchingStory.Manuscript

variable {α β : Type} {parse : String → Except String α} {t : FileTree} {entry : FileEntry}
  {fault : FileFault} {source dir below below' name name' text : String} {record : α}

/-! ## Draft files -/

/-- The directory at a path holds something of the name, which has the extension of drafts. -/
def IsDraftFile (t : FileTree) (dir name : String) : Prop :=
  t.Holds dir name ∧ ∃ stem, stem ≠ "" ∧ name = stem ++ ".ron"

/-- What the files of some names in a directory give.  A file that is a record gives the record, and
every other one gives a diagnostic with its path and the reason. -/
inductive Reads (parse : String → Except String α) (t : FileTree) (dir : String) :
    List String → List α → Report → Prop where
  | nil : Reads parse t dir [] [] []
  | record {name text : String} {r : α} {names : List String} {records : List α}
      {rejected : Report} :
      t.read (Path.join dir name) = .ok text → parse text = .ok r →
      Reads parse t dir names records rejected →
      Reads parse t dir (name :: names) (r :: records) rejected
  | malformed {name text reason : String} {names : List String} {records : List α}
      {rejected : Report} :
      t.read (Path.join dir name) = .ok text → parse text = .error reason →
      Reads parse t dir names records rejected →
      Reads parse t dir (name :: names) records
        (.malformed (.file (Path.join dir name)) "file" (FileFault.malformed reason).message ::
          rejected)
  | unreadable {name : String} {e : ReadError} {names : List String} {records : List α}
      {rejected : Report} :
      t.read (Path.join dir name) = .error e →
      Reads parse t dir names records rejected →
      Reads parse t dir (name :: names) records
        (.malformed (.file (Path.join dir name)) "file" (FileFault.unreadable e).message ::
          rejected)

/-- The draft files of a directory, in order, give the records and the diagnostics. -/
def ReadsDirectory (parse : String → Except String α) (t : FileTree) (dir : String)
    (records : List α) (rejected : Report) : Prop :=
  ∃ names, Enumerates names (IsDraftFile t dir) ∧ Reads parse t dir names records rejected

/-- The names of the draft files in a directory. -/
def draftFiles (t : FileTree) (dir : String) : List String :=
  if t.isDirectory dir then (t.names dir).filter (Path.hasExtension "ron") else []

/-- What one file of a directory gives. -/
def readFile (parse : String → Except String α) (t : FileTree) (dir name : String) :
    Except Diagnostic α :=
  (readRecord parse t (Path.join dir name)).mapError (rejection (Path.join dir name))

theorem readFile_eq_ok (hread : t.read (Path.join dir name) = .ok text)
    (hparse : parse text = .ok record) : readFile parse t dir name = .ok record := by
  simp [readFile, readRecord, hread, hparse, Except.mapError]

theorem readDirectory_eq :
    readDirectory parse t dir = (draftFiles t dir).map (readFile parse t dir) := by
  rw [readDirectory, draftFiles]
  split <;> rfl

theorem enumerates_draftFiles : Enumerates (draftFiles t dir) (IsDraftFile t dir) := by
  rw [draftFiles]
  split
  · rename_i hdirectory
    refine ((FileTree.enumerates_names hdirectory).filter _).congr fun name => ?_
    rw [Path.hasExtension_iff]
    simp only [IsDraftFile, String.append_assoc]
    rfl
  · rename_i hdirectory
    refine ⟨.nil, fun name => iff_of_false (by simp) ?_⟩
    rintro ⟨⟨place, hlocate, hplace, _⟩, _⟩
    exact hdirectory (FileTree.isDirectory_iff.mpr ⟨_, hlocate, hplace⟩)

theorem reads_map (parse : String → Except String α) (t : FileTree) (dir : String)
    (names : List String) :
    Reads parse t dir names (successes (names.map (readFile parse t dir)))
      (failures (names.map (readFile parse t dir))) := by
  induction names with
  | nil => exact .nil
  | cons name names ih =>
      rw [List.map_cons]
      cases hread : t.read (Path.join dir name) with
      | error e =>
          have hfile : readFile parse t dir name =
              .error (rejection (Path.join dir name) (.unreadable e)) := by
            simp [readFile, readRecord, hread, Except.mapError]
          rw [hfile]
          exact .unreadable hread ih
      | ok text =>
          cases hparse : parse text with
          | error reason =>
              have hfile : readFile parse t dir name =
                  .error (rejection (Path.join dir name) (.malformed reason)) := by
                simp [readFile, readRecord, hread, hparse, Except.mapError]
              rw [hfile]
              exact .malformed hread hparse ih
          | ok r =>
              rw [readFile_eq_ok hread hparse]
              exact .record hread hparse ih

/-- The draft files of a directory are read one after another. -/
theorem readsDirectory_readDirectory :
    ReadsDirectory parse t dir (successes (readDirectory parse t dir))
      (failures (readDirectory parse t dir)) := by
  rw [readDirectory_eq]
  exact ⟨draftFiles t dir, enumerates_draftFiles, reads_map parse t dir _⟩

/-! ## Replaced files -/

/-- A file that is no record, with the reason. -/
inductive Faulty (parse : String → Except String α) : FileEntry → FileFault → Prop where
  | binary : Faulty parse .binary (.unreadable .binary)
  | text {text reason : String} : parse text = .error reason →
      Faulty parse (.text text) (.malformed reason)

/-- The file of a record, and another file to put in its place, which is no record. -/
structure Spoils (parse : String → Except String α) (t : FileTree) (dir name : String) (record : α)
    (entry : FileEntry) (fault : FileFault) : Prop where
  isDraftFile : IsDraftFile t dir name
  parses : ∃ text, t.read (Path.join dir name) = .ok text ∧ parse text = .ok record
  faulty : Faulty parse entry fault

/-- The record of a file is lost, a diagnostic with the path of the file comes in, and what the
other files give stays as it is. -/
def Loses (parse : String → Except String α) (t : FileTree) (dir name : String) (record : α)
    (fault : FileFault) (records records' : List α) (rejected rejected' : Report) : Prop :=
  ∃ (earlier later : List String) (before after : List α)
      (rejectedBefore rejectedAfter : Report),
    Enumerates (earlier ++ name :: later) (IsDraftFile t dir) ∧
    Reads parse t dir earlier before rejectedBefore ∧
    Reads parse t dir later after rejectedAfter ∧
    records = before ++ record :: after ∧ records' = before ++ after ∧
    rejected = rejectedBefore ++ rejectedAfter ∧
    rejected' = rejectedBefore ++
      .malformed (.file (Path.join dir name)) "file" fault.message :: rejectedAfter

theorem IsDraftFile.plainName (h : IsDraftFile t dir name) (ht : t.WellNamed) :
    Path.PlainName name := by
  obtain ⟨hholds, stem, _, rfl⟩ := h
  refine ⟨hholds.slash_notMem ht, ?_⟩
  rw [String.length_append, show ".ron".length = 4 from rfl]
  omega

theorem Spoils.exists_text (h : Spoils parse t dir name record entry fault) :
    ∃ text, t.read (Path.join dir name) = .ok text :=
  h.parses.imp fun _ => And.left

theorem Spoils.isFile (h : Spoils parse t dir name record entry fault) : entry ≠ .directory := by
  obtain ⟨_, _, hfaulty⟩ := h
  cases hfaulty <;> simp

theorem Spoils.isDirectory_replace (h : Spoils parse t dir name record entry fault)
    (other : String) :
    (t.replace (Path.join dir name) entry).isDirectory other = t.isDirectory other := by
  obtain ⟨text, hread⟩ := h.exists_text
  exact FileTree.isDirectory_replace hread h.isFile other

/-- No other draft file is read under a path that leads to the replaced one. -/
theorem readFile_replace {below below' : String} {parseOther : String → Except String β}
    (ht : t.WellNamed) (hbelow : Path.PlainName below) (hbelow' : Path.PlainName below')
    (h : Spoils parse t (Path.join source below) name record entry fault)
    (h' : IsDraftFile t (Path.join source below') name') (hne : below' ≠ below ∨ name' ≠ name) :
    readFile parseOther (t.replace (Path.join (Path.join source below) name) entry)
        (Path.join source below') name' =
      readFile parseOther t (Path.join source below') name' := by
  obtain ⟨text, hread⟩ := h.exists_text
  obtain ⟨place, hlocate, _⟩ := FileTree.read_eq_ok_iff.mp hread
  have hother := FileTree.ne_of_locate?_join_join hbelow (h.isDraftFile.plainName ht) hbelow'
    (h'.plainName ht) hne hlocate
  have hsame := FileTree.read_replace_of_ne hread h.isFile (hlocate ▸ hother)
  rw [readFile, readFile, readRecord, readRecord, hsame]

theorem draftFiles_replace (h : Spoils parse t dir name record entry fault) (other : String) :
    draftFiles (t.replace (Path.join dir name) entry) other = draftFiles t other := by
  obtain ⟨text, hread⟩ := h.exists_text
  rw [draftFiles, draftFiles, h.isDirectory_replace]
  split
  · rw [FileTree.names_replace hread h.isFile ‹_›]
  · rfl

/-- The other directory is read as before. -/
theorem readDirectory_replace_of_ne {below below' : String} {parseOther : String → Except String β}
    (ht : t.WellNamed) (hbelow : Path.PlainName below) (hbelow' : Path.PlainName below')
    (hne : below' ≠ below) (h : Spoils parse t (Path.join source below) name record entry fault) :
    readDirectory parseOther (t.replace (Path.join (Path.join source below) name) entry)
        (Path.join source below') =
      readDirectory parseOther t (Path.join source below') := by
  rw [readDirectory_eq, readDirectory_eq, draftFiles_replace h]
  refine List.map_congr_left fun name' hname' => ?_
  exact readFile_replace ht hbelow hbelow' h ((enumerates_draftFiles.mem_iff name').mp hname')
    (.inl hne)

/-- What the replaced file gives, before and after. -/
theorem Spoils.readFile_eq (h : Spoils parse t dir name record entry fault) :
    readFile parse t dir name = .ok record ∧
      readFile parse (t.replace (Path.join dir name) entry) dir name =
        .error (rejection (Path.join dir name) fault) := by
  obtain ⟨text, hread, hparse⟩ := h.parses
  refine ⟨readFile_eq_ok hread hparse, ?_⟩
  have hstanding := FileTree.standing?_replace_self hread h.isFile
  obtain ⟨_, _, hfaulty⟩ := h
  cases hfaulty with
  | binary => simp [readFile, readRecord, FileTree.read, hstanding, Except.mapError]
  | text hparse' =>
      simp [readFile, readRecord, FileTree.read, hstanding, hparse', Except.mapError]

/-- The directory of the replaced file loses its record and nothing else. -/
theorem loses_readDirectory {below : String} (ht : t.WellNamed) (hbelow : Path.PlainName below)
    (hdir : dir = Path.join source below) (h : Spoils parse t dir name record entry fault) :
    Loses parse t dir name record fault (successes (readDirectory parse t dir))
      (successes (readDirectory parse (t.replace (Path.join dir name) entry) dir))
      (failures (readDirectory parse t dir))
      (failures (readDirectory parse (t.replace (Path.join dir name) entry) dir)) := by
  subst hdir
  obtain ⟨hrecord, hfault⟩ := h.readFile_eq
  obtain ⟨earlier, later, hsplit, hothers⟩ := enumerates_draftFiles.exists_split h.isDraftFile
  have hsame : ∀ names : List String, names ⊆ earlier ++ later →
      names.map (readFile parse (t.replace (Path.join (Path.join source below) name) entry)
          (Path.join source below)) =
        names.map (readFile parse t (Path.join source below)) := by
    intro names hnames
    refine List.map_congr_left fun name' hname' => ?_
    obtain ⟨hfile, hne⟩ := hothers name' (hnames hname')
    exact readFile_replace ht hbelow hbelow h hfile (.inr hne)
  refine ⟨earlier, later, _, _, _, _, hsplit ▸ enumerates_draftFiles,
    reads_map parse t _ earlier, reads_map parse t _ later, ?_⟩
  rw [readDirectory_eq, readDirectory_eq, draftFiles_replace h, hsplit]
  simp only [List.map_append, List.map_cons, hrecord, hfault,
    hsame earlier (List.subset_append_left _ _), hsame later (List.subset_append_right _ _),
    successes_append, failures_append, successes_cons_ok, successes_cons_error, failures_cons_ok,
    failures_cons_error, rejection, and_self]

/-! ## Manuscripts -/

theorem plainName_main : Path.PlainName "main" := ⟨by decide, by decide⟩

theorem plainName_side : Path.PlainName "side" := ⟨by decide, by decide⟩

/-- A manuscript is what its two directories give. -/
theorem loadWith_eq {parseChapter : String → Except String ChapterDraft}
    {parseCase : String → Except String CaseDraft} (h : t.isDirectory source = true) :
    loadWith parseChapter parseCase t source = .ok
      { chapters := successes (readDirectory parseChapter t (Path.join source "main"))
        cases := successes (readDirectory parseCase t (Path.join source "side"))
        rejected := failures (readDirectory parseChapter t (Path.join source "main")) ++
          failures (readDirectory parseCase t (Path.join source "side")) } := by
  rw [loadWith, if_pos h]

theorem exists_loadWith_eq_error_iff {parseChapter : String → Except String ChapterDraft}
    {parseCase : String → Except String CaseDraft} :
    (∃ e, loadWith parseChapter parseCase t source = .error e) ↔
      t.isDirectory source = false := by
  rw [loadWith]
  cases t.isDirectory source <;> simp

/-- Loading fails exactly if there is no directory at the path.  Otherwise the draft files of the
two directories are accounted for, each by its record or by one diagnostic.  A file of a record that
is replaced by one that is no record takes that record away and adds a diagnostic, and nothing else
changes. -/
theorem load_accounts (parseChapter : String → Except String ChapterDraft)
    (parseCase : String → Except String CaseDraft) (t : FileTree) (source : String) :
    ((∃ e, loadWith parseChapter parseCase t source = .error e) ↔
      t.isDirectory source = false) ∧
    ∀ m, loadWith parseChapter parseCase t source = .ok m →
      ∃ fromMain fromSide,
        m.rejected = fromMain ++ fromSide ∧
        ReadsDirectory parseChapter t (Path.join source "main") m.chapters fromMain ∧
        ReadsDirectory parseCase t (Path.join source "side") m.cases fromSide ∧
        (t.WellNamed →
          (∀ name draft entry fault,
            Spoils parseChapter t (Path.join source "main") name draft entry fault →
            ∃ m' fromMain',
              loadWith parseChapter parseCase
                (t.replace (Path.join (Path.join source "main") name) entry) source = .ok m' ∧
              Loses parseChapter t (Path.join source "main") name draft fault m.chapters m'.chapters
                fromMain fromMain' ∧
              m'.cases = m.cases ∧ m'.rejected = fromMain' ++ fromSide) ∧
          ∀ name draft entry fault,
            Spoils parseCase t (Path.join source "side") name draft entry fault →
            ∃ m' fromSide',
              loadWith parseChapter parseCase
                (t.replace (Path.join (Path.join source "side") name) entry) source = .ok m' ∧
              Loses parseCase t (Path.join source "side") name draft fault m.cases m'.cases
                fromSide fromSide' ∧
              m'.chapters = m.chapters ∧ m'.rejected = fromMain ++ fromSide') := by
  refine ⟨exists_loadWith_eq_error_iff, ?_⟩
  intro m hload
  have hdirectory : t.isDirectory source = true := by
    by_contra hnone
    obtain ⟨e, herror⟩ := exists_loadWith_eq_error_iff.mpr (Bool.eq_false_iff.mpr hnone)
    rw [herror] at hload
    cases hload
  obtain rfl := Except.ok.inj ((loadWith_eq hdirectory).symm.trans hload)
  refine ⟨_, _, rfl, readsDirectory_readDirectory, readsDirectory_readDirectory, ?_⟩
  intro ht
  constructor
  · intro name draft entry fault h
    have hother : readDirectory parseCase
          (t.replace (Path.join (Path.join source "main") name) entry) (Path.join source "side") =
        readDirectory parseCase t (Path.join source "side") :=
      readDirectory_replace_of_ne ht plainName_main plainName_side (by decide) h
    refine ⟨_, _, loadWith_eq ?_, loses_readDirectory ht plainName_main rfl h, ?_, ?_⟩
    · rw [h.isDirectory_replace, hdirectory]
    · simp only [hother]
    · simp only [hother]
  · intro name draft entry fault h
    have hother : readDirectory parseChapter
          (t.replace (Path.join (Path.join source "side") name) entry) (Path.join source "main") =
        readDirectory parseChapter t (Path.join source "main") :=
      readDirectory_replace_of_ne ht plainName_side plainName_main (by decide) h
    refine ⟨_, _, loadWith_eq ?_, loses_readDirectory ht plainName_side rfl h, ?_, ?_⟩
    · rw [h.isDirectory_replace, hdirectory]
    · simp only [hother]
    · simp only [hother]

/-- Drafts of two chapters and of a case, a directory with the name of a draft and a text with
another extension. -/
def notebook : FileTree := .ofEntriesAt ["home", "author"]
  [("source/main/second.ron", .text "(number: 2)"), ("source/main/first.ron", .text "(number: 1)"),
    ("source/main/later.ron", .directory), ("source/main/notes.txt", .text "(number: 3)"),
    ("source/side/riddle.ron", .text "(number: 7)")]

/-- The path of the notebook. -/
def notebookDir : String := "/home/author/source"

theorem load_accounts_notebook :
    (notebook.WellNamed ∧
      Spoils ChapterDraft.parse notebook (Path.join notebookDir "main") "second.ron" { number := 2 }
        (.text "(number: )") (.malformed "expected a chapter") ∧
      Spoils CaseDraft.parse notebook (Path.join notebookDir "side") "riddle.ron" { number := 7 }
        .binary (.unreadable .binary)) ∧
    ∃ m fromMain fromSide,
      load notebook notebookDir = .ok m ∧
      ReadsDirectory ChapterDraft.parse notebook (Path.join notebookDir "main") m.chapters
        fromMain ∧
      (∃ m' fromMain', load (notebook.replace
          (Path.join (Path.join notebookDir "main") "second.ron") (.text "(number: )"))
          notebookDir = .ok m' ∧
        Loses ChapterDraft.parse notebook (Path.join notebookDir "main") "second.ron"
          { number := 2 } (.malformed "expected a chapter") m.chapters m'.chapters fromMain
          fromMain') ∧
      ∃ m' fromSide', load (notebook.replace (Path.join (Path.join notebookDir "side") "riddle.ron")
          .binary) notebookDir = .ok m' ∧
        Loses CaseDraft.parse notebook (Path.join notebookDir "side") "riddle.ron" { number := 7 }
          (.unreadable .binary) m.cases m'.cases fromSide fromSide' := by
  have hnamed : notebook.WellNamed :=
    FileTree.wellNamed_ofEntriesAt (by simp [FileTree.Unslashed]) _
  have hdirectory : notebook.isDirectory notebookDir = true := by decide +kernel
  have hmainFile : notebook.Holds (Path.join notebookDir "main") "second.ron" :=
    ⟨["home", "author", "source", "main"], by decide +kernel⟩
  have hsideFile : notebook.Holds (Path.join notebookDir "side") "riddle.ron" :=
    ⟨["home", "author", "source", "side"], by decide +kernel⟩
  have hmain : Spoils ChapterDraft.parse notebook (Path.join notebookDir "main") "second.ron"
      { number := 2 } (.text "(number: )") (.malformed "expected a chapter") :=
    { isDraftFile := ⟨hmainFile, "second", by decide, rfl⟩
      parses := ⟨"(number: 2)", by decide +kernel, by decide +kernel⟩
      faulty := .text (by decide +kernel) }
  have hside : Spoils CaseDraft.parse notebook (Path.join notebookDir "side") "riddle.ron"
      { number := 7 } .binary (.unreadable .binary) :=
    { isDraftFile := ⟨hsideFile, "riddle", by decide, rfl⟩
      parses := ⟨"(number: 7)", by decide +kernel, by decide +kernel⟩
      faulty := .binary }
  obtain ⟨fromMain, fromSide, _, hreads, _, hspoiled⟩ :=
    (load_accounts ChapterDraft.parse CaseDraft.parse notebook notebookDir).2 _
      (loadWith_eq hdirectory)
  obtain ⟨hchapter, hcase⟩ := hspoiled hnamed
  obtain ⟨m', fromMain', hload', hloses, _, _⟩ := hchapter _ _ _ _ hmain
  obtain ⟨m'', fromSide', hload'', hloses', _, _⟩ := hcase _ _ _ _ hside
  exact ⟨⟨hnamed, hmain, hside⟩, _, fromMain, fromSide, loadWith_eq hdirectory, hreads,
    ⟨m', fromMain', hload', hloses⟩, m'', fromSide', hload'', hloses'⟩

end BranchingStory.Manuscript
