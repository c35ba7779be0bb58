import BranchingStory.Publication.Manifest
import BranchingStory.Proofs.Json.Records
import BranchingStory.Proofs.Puzzle.Play
import BranchingStory.Proofs.Story.DefaultLinks

/-!
# Rereading documents

A player's machine reads the documents that a compiler wrote, and finds what the compiler had
(`documents_survive`).  Every record of a document is written field by field and found field by
field, so it is found as it was if its fields are.

The values that are written are plain, so each of them is read from its text
(`ChapterDocument.plain_toJson`, `CaseDocument.plain_toJson`, `Manifest.plain_toJson`).  On the way
to the record two things could get lost.  A number that is no word is refused, so a document has to
fit into words, as it does wherever the numbers are words.  And an unlock is written as a bare
name, so a question of the name `SOLUTION` would come back as the solution.  A compiler reads
unlocks by the same names and never makes such a question.
-/

namespace BranchingStory

open Json

/-! ## Chapters -/

theorem Translations.encodes (t : Translations) : Encodes ofJson? (toJson t) t :=
  encodes_ofMap fun _ _ _ => encodes_string _

theorem Perspective.encodes (p : Perspective) : Encodes ofJson? p.toJson p := by
  cases p with
  | shared => exact ⟨.string "all", rfl⟩
  | track pov => exact ⟨.object (by simp [Plain.string]), rfl⟩

theorem Choice.encodes (o : Choice) : Encodes ofJson? o.toJson o := by
  have htext := Translations.encodes o.text
  have hread : ofJson? o.toJson = do
      return { text := ← Translations.ofJson? (Translations.toJson o.text), target := o.target } :=
    rfl
  exact ⟨.object (by simp [Plain.string, htext.plain]), by simp [hread, htext.decodes]⟩

/-- The number of the link is a word. -/
def Link.FitsWords (link : Link) : Prop :=
  ∀ number, link = .chapter number → number ≤ maxRecordNumber

theorem Link.plain_toJson (link : Link) : link.toJson.Plain := by
  cases link with
  | node id => exact .object (by simp [Plain.string])
  | chapter number => exact .object (by simp [Plain.nat])
  | choice options =>
      have hoptions := encodes_ofList (l := options) fun o _ => o.encodes
      exact .object (by simp [hoptions.plain])
  | ending => exact .string "terminal"

theorem Link.encodes {link : Link} (h : link.FitsWords) : Encodes ofJson? link.toJson link := by
  refine ⟨link.plain_toJson, ?_⟩
  cases link with
  | node id => rfl
  | chapter number =>
      have hnumber : Encodes recordNumber? (.nat number) number := encodes_nat (h number rfl)
      have hread : ofJson? (Link.chapter number).toJson =
          (recordNumber? (.nat number)).map chapter := rfl
      simp [hread, hnumber.decodes]
  | choice options =>
      have hoptions := encodes_ofList (l := options) fun o _ => o.encodes
      have hread : ofJson? (Link.choice options).toJson =
          (list? Choice.ofJson? (ofList Choice.toJson options)).map choice := rfl
      simp [hread, hoptions.decodes]
  | ending => rfl

theorem Node.plain_toJson (n : Node) : n.toJson.Plain := by
  have htext := Translations.encodes n.text
  have hpov := n.pov.encodes
  have htags := encodes_ofSet n.tags
  refine .object ?_
  cases n.speaker <;>
    simp [Plain.string, htext.plain, n.next.plain_toJson, hpov.plain, htags.plain]

theorem Node.encodes {n : Node} (h : n.next.FitsWords) : Encodes ofJson? n.toJson n := by
  have hkind : Encodes NodeKind.ofJson? (.string n.kind.name) n.kind :=
    encodes_name (NodeKind.ofName?_name n.kind)
  have htext := Translations.encodes n.text
  have hnext := Link.encodes h
  have hpov := n.pov.encodes
  have htags := encodes_ofSet n.tags
  have hread : ofJson? n.toJson = do
      return { id := n.id
               kind := ← NodeKind.ofJson? (.string n.kind.name)
               speaker := n.speaker
               text := ← Translations.ofJson? (Translations.toJson n.text)
               next := ← Link.ofJson? n.next.toJson
               pov := ← Perspective.ofJson? n.pov.toJson
               tags := ← set? (ofSet n.tags) } := by
    obtain ⟨id, kind, speaker, text, next, pov, tags⟩ := n
    cases speaker <;> rfl
  refine ⟨n.plain_toJson, ?_⟩
  simp [hread, hkind.decodes, htext.decodes, hnext.decodes, hpov.decodes, htags.decodes]

theorem Track.encodes (t : Track) : Encodes ofJson? t.toJson t := by
  have hnodes := encodes_ofList (l := t.nodes) fun id _ => encodes_string id
  have hread : ofJson? t.toJson = do
      return { pov := t.pov, nodes := ← list? string? (ofList .string t.nodes) } := rfl
  exact ⟨.object (by simp [Plain.string, hnodes.plain]), by simp [hread, hnodes.decodes]⟩

theorem ChapterMetadata.plain_toJson (m : ChapterMetadata) : m.toJson.Plain :=
  .object (by simp [Plain.string, Plain.nat])

theorem ChapterMetadata.encodes {m : ChapterMetadata} (hnodes : m.nodeCount ≤ maxCount)
    (htracks : m.trackCount ≤ maxCount) : Encodes ofJson? m.toJson m := by
  have hnodeCount : Encodes count? (.nat m.nodeCount) m.nodeCount := encodes_nat hnodes
  have htrackCount : Encodes count? (.nat m.trackCount) m.trackCount := encodes_nat htracks
  have hread : ofJson? m.toJson = do
      return { nodeCount := ← count? (.nat m.nodeCount)
               trackCount := ← count? (.nat m.trackCount)
               compilerVersion := m.compilerVersion } := rfl
  exact ⟨m.plain_toJson, by simp [hread, hnodeCount.decodes, htrackCount.decodes]⟩

/-- The numbers of the document are words. -/
structure ChapterDocument.FitsWords (d : ChapterDocument) : Prop where
  chapter : d.chapter ≤ maxRecordNumber
  links : ∀ (id : String) n, d.nodes[id]? = some n → n.next.FitsWords
  nodes : d.metadata.nodeCount ≤ maxCount
  tracks : d.metadata.trackCount ≤ maxCount

theorem ChapterDocument.plain_toJson (d : ChapterDocument) : d.toJson.Plain := by
  have htitle := Translations.encodes d.title
  have htracks := encodes_ofList (l := d.tracks) fun t _ => t.encodes
  have hnodes := plain_ofMap (m := d.nodes) Node.plain_toJson
  exact .object (by simp [Plain.string, Plain.nat, htitle.plain, htracks.plain, hnodes,
    d.metadata.plain_toJson])

theorem ChapterDocument.encodes {d : ChapterDocument} (h : d.FitsWords) :
    Encodes ofJson? d.toJson d := by
  have hchapter : Encodes recordNumber? (.nat d.chapter) d.chapter := encodes_nat h.chapter
  have htitle := Translations.encodes d.title
  have htracks := encodes_ofList (l := d.tracks) fun t _ => t.encodes
  have hnodes := encodes_ofMap (m := d.nodes) fun id n hn => Node.encodes (h.links id n hn)
  have hmetadata := ChapterMetadata.encodes h.nodes h.tracks
  have hread : ofJson? d.toJson = do
      return { chapter := ← recordNumber? (.nat d.chapter)
               title := ← Translations.ofJson? (Translations.toJson d.title)
               entry := d.entry
               tracks := ← list? Track.ofJson? (ofList Track.toJson d.tracks)
               nodes := ← map? Node.ofJson? (ofMap Node.toJson d.nodes)
               metadata := ← ChapterMetadata.ofJson? d.metadata.toJson } := rfl
  refine ⟨d.plain_toJson, ?_⟩
  simp [hread, hchapter.decodes, htitle.decodes, htracks.decodes, hnodes.decodes,
    hmetadata.decodes]

/-! ## Cases -/

/-- The unlock is not a question that has the name of the solution. -/
def Unlock.Named (u : Unlock) : Prop := u ≠ .question solutionName

theorem Unlock.encodes {u : Unlock} (h : u.Named) : Encodes ofJson? (.string u.name) u := by
  refine ⟨.string u.name, ?_⟩
  cases u with
  | solution => rfl
  | question id =>
      have hid : id ≠ solutionName := fun hid => h (hid ▸ rfl)
      simp [ofJson?, string?, name, ofName, hid]

theorem Question.plain_toJson (q : Question) : q.toJson.Plain := by
  have htext := Translations.encodes q.text
  have hunlocks := plain_ofList q.unlocks fun u => Plain.string u.name
  exact .object (by simp [Plain.string, htext.plain, hunlocks])

theorem Question.encodes {q : Question} (h : ∀ u ∈ q.unlocks, u.Named) :
    Encodes ofJson? q.toJson q := by
  have htext := Translations.encodes q.text
  have hanswer : Encodes Reply.ofJson? (.string q.answer.name) q.answer :=
    encodes_name (Reply.ofName?_name q.answer)
  have hunlocks := encodes_ofList (l := q.unlocks) fun u hu => Unlock.encodes (h u hu)
  have hread : ofJson? q.toJson = do
      return { id := q.id
               text := ← Translations.ofJson? (Translations.toJson q.text)
               answer := ← Reply.ofJson? (.string q.answer.name)
               unlocks := ← list? Unlock.ofJson? (ofList (fun u => .string u.name) q.unlocks) } :=
    rfl
  exact ⟨q.plain_toJson, by simp [hread, htext.decodes, hanswer.decodes, hunlocks.decodes]⟩

theorem CaseMetadata.plain_toJson (m : CaseMetadata) : m.toJson.Plain :=
  .object (by simp [Plain.string, Plain.nat])

theorem CaseMetadata.encodes {m : CaseMetadata} (hquestions : m.questionCount ≤ maxCount)
    (hhints : m.hintCount ≤ maxCount) : Encodes ofJson? m.toJson m := by
  have hquestionCount : Encodes count? (.nat m.questionCount) m.questionCount :=
    encodes_nat hquestions
  have hhintCount : Encodes count? (.nat m.hintCount) m.hintCount := encodes_nat hhints
  have hread : ofJson? m.toJson = do
      return { questionCount := ← count? (.nat m.questionCount)
               hintCount := ← count? (.nat m.hintCount)
               compilerVersion := m.compilerVersion } := rfl
  exact ⟨m.plain_toJson, by simp [hread, hquestionCount.decodes, hhintCount.decodes]⟩

theorem CaseDocument.plain_toJson (d : CaseDocument) : d.toJson.Plain := by
  have htitle := Translations.encodes d.title
  have hscenario := Translations.encodes d.scenario
  have hquestions := plain_ofList d.questions Question.plain_toJson
  have hsolution := Translations.encodes d.solution
  have hhints := encodes_ofList (l := d.hints) fun t _ => Translations.encodes t
  refine .object ?_
  cases d.estimatedTime <;>
    simp [Plain.string, htitle.plain, hscenario.plain, hquestions, hsolution.plain,
      hhints.plain, d.metadata.plain_toJson]

theorem CaseDocument.encodes {d : CaseDocument}
    (hunlocks : ∀ q ∈ d.questions, ∀ u ∈ q.unlocks, u.Named)
    (hquestionCount : d.metadata.questionCount ≤ maxCount)
    (hhintCount : d.metadata.hintCount ≤ maxCount) : Encodes ofJson? d.toJson d := by
  have htitle := Translations.encodes d.title
  have hdifficulty : Encodes Difficulty.ofJson? (.string d.difficulty.name) d.difficulty :=
    encodes_name (Difficulty.ofName?_name d.difficulty)
  have hscenario := Translations.encodes d.scenario
  have hquestions := encodes_ofList (l := d.questions) fun q hq => Question.encodes (hunlocks q hq)
  have hsolution := Translations.encodes d.solution
  have hhints := encodes_ofList (l := d.hints) fun t _ => Translations.encodes t
  have hmetadata := CaseMetadata.encodes hquestionCount hhintCount
  have hread : ofJson? d.toJson = do
      return { caseId := d.caseId
               title := ← Translations.ofJson? (Translations.toJson d.title)
               difficulty := ← Difficulty.ofJson? (.string d.difficulty.name)
               scenario := ← Translations.ofJson? (Translations.toJson d.scenario)
               questions := ← list? Question.ofJson? (ofList Question.toJson d.questions)
               solution := ← Translations.ofJson? (Translations.toJson d.solution)
               hints := ← list? Translations.ofJson? (ofList Translations.toJson d.hints)
               estimatedTime := d.estimatedTime
               metadata := ← CaseMetadata.ofJson? d.metadata.toJson } := by
    obtain ⟨caseId, title, difficulty, scenario, questions, solution, hints, estimatedTime,
      metadata⟩ := d
    cases estimatedTime <;> rfl
  refine ⟨d.plain_toJson, ?_⟩
  simp [hread, htitle.decodes, hdifficulty.decodes, hscenario.decodes, hquestions.decodes,
    hsolution.decodes, hhints.decodes, hmetadata.decodes]

/-! ## Manifests -/

theorem ContentCounts.plain_toJson (c : ContentCounts) : c.toJson.Plain :=
  .object (by simp [Plain.nat])

theorem ContentCounts.encodes {c : ContentCounts} (hchapters : c.mainChapters ≤ maxCount)
    (hcases : c.sideCases ≤ maxCount) (hnodes : c.totalNodes ≤ maxCount) :
    Encodes ofJson? c.toJson c := by
  have hmainChapters : Encodes count? (.nat c.mainChapters) c.mainChapters := encodes_nat hchapters
  have hsideCases : Encodes count? (.nat c.sideCases) c.sideCases := encodes_nat hcases
  have htotalNodes : Encodes count? (.nat c.totalNodes) c.totalNodes := encodes_nat hnodes
  have hread : ofJson? c.toJson = do
      return { mainChapters := ← count? (.nat c.mainChapters)
               sideCases := ← count? (.nat c.sideCases)
               totalNodes := ← count? (.nat c.totalNodes) } := rfl
  refine ⟨c.plain_toJson, ?_⟩
  simp [hread, hmainChapters.decodes, hsideCases.decodes, htotalNodes.decodes]

theorem ChapterEntry.plain_toJson (e : ChapterEntry) : e.toJson.Plain := by
  have hlanguages := plain_ofList e.languages Plain.string
  exact .object (by simp [Plain.string, Plain.nat, hlanguages])

theorem ChapterEntry.encodes {e : ChapterEntry} (hchapter : e.chapter ≤ maxRecordNumber)
    (hnodes : e.nodes ≤ maxCount) : Encodes ofJson? e.toJson e := by
  have hnumber : Encodes recordNumber? (.nat e.chapter) e.chapter := encodes_nat hchapter
  have hcount : Encodes count? (.nat e.nodes) e.nodes := encodes_nat hnodes
  have hlanguages := encodes_ofList (l := e.languages) fun code _ => encodes_string code
  have hread : ofJson? e.toJson = do
      return { chapter := ← recordNumber? (.nat e.chapter)
               file := e.file
               nodes := ← count? (.nat e.nodes)
               languages := ← list? string? (ofList .string e.languages) } := rfl
  exact ⟨e.plain_toJson, by simp [hread, hnumber.decodes, hcount.decodes, hlanguages.decodes]⟩

theorem CaseEntry.encodes (e : CaseEntry) : Encodes ofJson? e.toJson e := by
  have hdifficulty : Encodes Difficulty.ofJson? (.string e.difficulty.name) e.difficulty :=
    encodes_name (Difficulty.ofName?_name e.difficulty)
  have hread : ofJson? e.toJson = do
      return { caseId := e.caseId
               file := e.file
               difficulty := ← Difficulty.ofJson? (.string e.difficulty.name) } := rfl
  exact ⟨.object (by simp [Plain.string]), by simp [hread, hdifficulty.decodes]⟩

theorem Manifest.plain_toJson (m : Manifest) : m.toJson.Plain := by
  have hchapters := plain_ofList m.chapters ChapterEntry.plain_toJson
  have hcases := encodes_ofList (l := m.cases) fun e _ => e.encodes
  exact .object (by simp [Plain.string, m.content.plain_toJson, hchapters, hcases.plain])

/-- The numbers of the manifest are words. -/
structure Manifest.FitsWords (m : Manifest) : Prop where
  mainChapters : m.content.mainChapters ≤ maxCount
  sideCases : m.content.sideCases ≤ maxCount
  totalNodes : m.content.totalNodes ≤ maxCount
  chapters : ∀ e ∈ m.chapters, e.chapter ≤ maxRecordNumber ∧ e.nodes ≤ maxCount

theorem Manifest.encodes {m : Manifest} (h : m.FitsWords) : Encodes ofJson? m.toJson m := by
  have hcontent := ContentCounts.encodes h.mainChapters h.sideCases h.totalNodes
  have hchapters := encodes_ofList (l := m.chapters) fun e he =>
    ChapterEntry.encodes (h.chapters e he).1 (h.chapters e he).2
  have hcases := encodes_ofList (l := m.cases) fun e _ => e.encodes
  have hread : ofJson? m.toJson = do
      return { version := m.version
               content := ← ContentCounts.ofJson? m.content.toJson
               chapters := ← list? ChapterEntry.ofJson? (ofList ChapterEntry.toJson m.chapters)
               cases := ← list? CaseEntry.ofJson? (ofList CaseEntry.toJson m.cases) } := rfl
  exact ⟨m.plain_toJson, by simp [hread, hcontent.decodes, hchapters.decodes, hcases.decodes]⟩

/-! ## Documents -/

/-- The numbers of the chapter are words: those of records of 32 bits, and counts of 64 bits. -/
structure Chapter.FitsWords (c : Chapter) : Prop where
  number : c.number ≤ maxRecordNumber
  links : ∀ n ∈ c.nodes, n.next.FitsWords
  nodes : c.nodes.length ≤ maxCount
  tracks : c.tracks.length ≤ maxCount

theorem Chapter.FitsWords.ofChapter {c : Chapter} (h : c.FitsWords) :
    (ChapterDocument.ofChapter c).FitsWords where
  chapter := h.number
  links id n hn := by
    obtain ⟨m, hm, heq⟩ := List.mem_map.mp (mem_of_getElem?_ofList hn)
    obtain rfl : m = n := congrArg Prod.snd heq
    exact h.links m hm
  nodes := h.nodes
  tracks := h.tracks

/-- An unlock is read from its name, so a compiled case unlocks the solution by no question. -/
theorem CaseDraft.named_of_compile {e : Edition} {d : CaseDraft} {p : Case}
    (h : d.compile e = .ok p) : ∀ q ∈ p.questions, ∀ u ∈ q.unlocks, u.Named := by
  obtain ⟨_, _, rfl⟩ := compile_eq_ok_iff.mp h
  intro q hq u hu
  obtain ⟨⟨draft, i⟩, _, hquestion⟩ := List.mem_filterMap.mp hq
  obtain ⟨_, _, rfl⟩ := Option.map_eq_some_iff.mp hquestion
  obtain ⟨name, _, rfl⟩ := List.mem_map.mp hu
  exact Unlock.ofName_ne_question_solutionName name

theorem length_nodes_le_of_mem {chapters : List Chapter} {c : Chapter} (hc : c ∈ chapters) :
    c.nodes.length ≤ (chapters.flatMap Chapter.nodes).length := by
  rw [List.flatMap_def]
  exact (List.sublist_flatten_of_mem (List.mem_map_of_mem hc)).length_le

theorem Manifest.fitsWords_of_build {chapters : List Chapter} {cases : List Case} {report : Report}
    {m : Manifest} (h : build chapters cases report = .ok m)
    (hchapters : chapters.length ≤ maxCount) (hcases : cases.length ≤ maxCount)
    (hnodes : (chapters.flatMap Chapter.nodes).length ≤ maxCount)
    (hnumbers : ∀ c ∈ chapters, c.number ≤ maxRecordNumber) : m.FitsWords := by
  rw [build] at h
  split at h
  · cases h
  · obtain rfl := Except.ok.inj h
    refine ⟨hchapters, hcases, hnodes, fun e he => ?_⟩
    obtain ⟨c, hc, rfl⟩ := List.mem_map.mp he
    have hc : c ∈ chapters := mem_sortByNumber.mp hc
    exact ⟨hnumbers c hc, (length_nodes_le_of_mem hc).trans hnodes⟩

/-- Whatever is shipped is read as it was, from the text that is written for it: the document of a
chapter, of a compiled case, and the manifest. -/
theorem documents_survive :
    (∀ c : Chapter, c.FitsWords →
      (Json.parse? (ChapterDocument.ofChapter c).toJson.pretty).bind ChapterDocument.ofJson? =
        some (.ofChapter c)) ∧
    (∀ (e : Edition) (d : CaseDraft) (p : Case), d.compile e = .ok p →
      p.questions.length ≤ maxCount → p.hints.length ≤ maxCount →
      (Json.parse? (CaseDocument.ofCase p).toJson.pretty).bind CaseDocument.ofJson? =
        some (.ofCase p)) ∧
    ∀ (chapters : List Chapter) (cases : List Case) (report : Report) (m : Manifest),
      Manifest.build chapters cases report = .ok m → chapters.length ≤ maxCount →
      cases.length ≤ maxCount → (chapters.flatMap Chapter.nodes).length ≤ maxCount →
      (∀ c ∈ chapters, c.number ≤ maxRecordNumber) →
      (Json.parse? m.toJson.pretty).bind Manifest.ofJson? = some m := by
  refine ⟨fun c hc => ?_, fun e d p hp hquestions hhints => ?_,
    fun chapters cases report m hm hchapters hcases hnodes hnumbers => ?_⟩
  · exact (ChapterDocument.encodes hc.ofChapter).parse?_pretty
  · have hunlocks := CaseDraft.named_of_compile hp
    exact (CaseDocument.encodes (d := .ofCase p) hunlocks hquestions hhints).parse?_pretty
  · have hfits := Manifest.fitsWords_of_build hm hchapters hcases hnodes hnumbers
    exact (Manifest.encodes hfits).parse?_pretty

/-- A chapter whose names and texts need escapes, with every form of link. -/
def mirrors : Chapter where
  number := 4294967295
  title := english "\"Mirrors\" \\ ミラー \x01"
  entry := "HALL\t1"
  tracks := [⟨"Zoë\n", ["LEFT", "LEFT"]⟩, ⟨"", []⟩]
  nodes :=
    [{ id := "HALL\t1", kind := .choice, speaker := none, text := english "", pov := .shared,
       next := .choice [⟨english "\x7f𝄞", "LEFT"⟩, ⟨∅, "\\"⟩], tags := ∅ },
      { id := "LEFT", kind := .dialogue, speaker := some "null", text := ∅, next := .node "\"",
        pov := .track "Zoë\n", tags := .ofList ["b", "a", "b"] },
      { id := "LEFT", kind := .dialogue, speaker := some "", text := english "/", next := .ending,
        pov := .track "all", tags := ∅ },
      { id := "", kind := .chapterEnd, speaker := none, text := ∅, next := .chapter 0,
        pov := .shared, tags := .ofList ["SOLUTION"] }]

theorem documents_survive_mirrors :
    (Json.parse? (ChapterDocument.ofChapter mirrors).toJson.pretty).bind ChapterDocument.ofJson? =
      some (.ofChapter mirrors) ∧
    (lighthouse.compile ⟨"english", none⟩ = .ok lighthouse.assemble ∧
      (Json.parse? (CaseDocument.ofCase lighthouse.assemble).toJson.pretty).bind
        CaseDocument.ofJson? = some (.ofCase lighthouse.assemble)) ∧
    ∃ m, Manifest.build [mirrors] [lighthouse.assemble] [] = .ok m ∧
      (Json.parse? m.toJson.pretty).bind Manifest.ofJson? = some m := by
  obtain ⟨hchapter, hcase, hmanifest⟩ := documents_survive
  have hcompile : lighthouse.compile ⟨"english", none⟩ = .ok lighthouse.assemble := rfl
  have hfits : mirrors.FitsWords :=
    { number := by decide
      links := by simp [mirrors, Link.FitsWords]
      nodes := by decide
      tracks := by decide }
  refine ⟨hchapter mirrors hfits, ⟨hcompile, ?_⟩, _, rfl, ?_⟩
  · exact hcase _ _ _ hcompile (by decide) (by decide)
  · exact hmanifest [mirrors] [lighthouse.assemble] [] _ rfl (by decide) (by decide) (by decide)
      (by simpa using hfits.number)

end BranchingStory
