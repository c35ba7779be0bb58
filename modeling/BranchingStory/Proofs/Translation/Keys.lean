import Mathlib.Data.List.Pairwise
import Mathlib.Data.List.Perm.Basic
import BranchingStory.Draft
import BranchingStory.Proofs.Locale.Bundle
import BranchingStory.Proofs.Lookup
import BranchingStory.Proofs.Translation.Slots

/-!
# One key for each text

If the records have names of their own, no two texts share a key: the keys of a bundle then
correspond to the places at which the records hold texts, and each key has the text of its place
(`keys_correspond`).  For chapters it is enough that numbers and names of nodes are distinct.  A
name of a case must not hold a dot, since a question may be named anything, and the dot between
the two names then is the first one of the key (`CasePlace.key_inj_of_notMem`).

That texts and keys correspond is said once for all records (`Bundle.corresponds_ofSlots`).  What
is left for chapters and for cases is to list the places of a record, and that no place is listed
twice.
-/

namespace BranchingStory

/-! ## Texts with keys of their own -/

/-- The keys of the bundle correspond to the texts that stand at the places of some records.  Each
of these texts has a key of its own, the key has this text alone, and there is no other key.
`count` says how many texts a record has. -/
structure Bundle.Corresponds {R P : Type} (b : Bundle) (records : List R)
    (Holds : R → P → Translations → Prop) (key : P → String) (count : R → Nat) : Prop where
  injective : ∀ r ∈ records, ∀ r' ∈ records, ∀ place place' text text',
    Holds r place text → Holds r' place' text' → key place = key place' →
      r = r' ∧ place = place' ∧ text = text'
  entries : ∀ (k : String) (text : Translations), b.entries[k]? = some text ↔
    ∃ r ∈ records, ∃ place, Holds r place text ∧ key place = k
  size : b.size = (records.map count).sum

/-- What stands in the list of one element only tells the element. -/
theorem eq_of_nodup_flatMap {α β : Type} {f : α → List β} {l : List α} (h : (l.flatMap f).Nodup)
    {a b : α} (ha : a ∈ l) (hb : b ∈ l) {x : β} (hxa : x ∈ f a) (hxb : x ∈ f b) : a = b := by
  by_contra hne
  have hsymm : Std.Symm (Function.onFun List.Disjoint f) := ⟨fun _ _ h _ ha hb => h hb ha⟩
  exact (List.nodup_flatMap.mp h).2.forall ha hb hne hxa hxb

/-- Lists are disjoint if each element tells whose list it is from. -/
theorem nodup_flatMap_of_owner {α β γ : Type} (owner : β → γ) (name : α → γ) {f : α → List β}
    {l : List α} (hnames : (l.map name).Nodup) (hlists : ∀ a ∈ l, (f a).Nodup)
    (howner : ∀ a ∈ l, ∀ x ∈ f a, owner x = name a) : (l.flatMap f).Nodup := by
  refine List.nodup_flatMap.mpr ⟨hlists, (List.pairwise_map.mp hnames).imp_of_mem ?_⟩
  intro a b ha hb hne x hxa hxb
  exact hne ((howner a ha x hxa).symm.trans (howner b hb x hxb))

namespace Bundle

variable {surface : String} {slots : List (String × Translations)}

/-- Slots with keys of their own are the entries of their bundle. -/
theorem entries_ofSlots (h : (slots.map Prod.fst).Nodup) :
    (ofSlots surface slots).entries = .ofList slots compare := by
  refine Std.ExtTreeMap.ext_getElem? fun key => Option.ext fun text => ?_
  rw [getElem?_ofList_eq_some_iff h]
  have hunique : ∀ text, (key, text) ∈ slots → ∀ s ∈ slots, s.1 = key → s.2 = text :=
    fun text htext s hs hkey => congrArg Prod.snd (List.inj_on_of_nodup_map h hs htext hkey)
  have hentry : ∀ text, (key, text) ∈ slots →
      (ofSlots surface slots).entries[key]? = some text := by
    intro text htext
    have hkey : key ∈ (ofSlots surface slots).entries := mem_entries_ofSlots.mpr ⟨_, htext, rfl⟩
    have hsome := Std.ExtTreeMap.getElem?_eq_some_getElem hkey
    rw [hsome, Option.some.injEq]
    refine Std.ExtTreeMap.ext_getElem? fun language => ?_
    have hget : (ofSlots surface slots).get? key language = text[language]? :=
      get?_ofSlots_of_unique htext (hunique text htext)
    rwa [get?, hsome, Option.bind_some] at hget
  refine ⟨fun hget => ?_, hentry text⟩
  obtain ⟨⟨_, text'⟩, hslot, rfl⟩ := mem_entries_ofSlots.mp
    (Std.ExtTreeMap.mem_iff_isSome_getElem?.mpr (Option.isSome_of_eq_some hget))
  obtain rfl := Option.some.inj ((hentry text' hslot).symm.trans hget)
  exact hslot

theorem size_ofSlots (h : (slots.map Prod.fst).Nodup) :
    (ofSlots surface slots).size = slots.length := by
  rw [size, entries_ofSlots h]
  refine Std.ExtTreeMap.size_ofList ((List.pairwise_map.mp h).imp fun hne heq => hne ?_)
  exact Std.LawfulEqOrd.compare_eq_iff_eq.mp heq

/-- If the places of some records are distinct and have distinct keys, the bundle of their texts
corresponds to the places. -/
theorem corresponds_ofSlots {R P : Type} {records : List R}
    {slotsOf : R → List (String × Translations)} {Holds : R → P → Translations → Prop}
    {key : P → String} {places : R → List P}
    (hslots : ∀ r slot, slot ∈ slotsOf r ↔ ∃ place, Holds r place slot.2 ∧ key place = slot.1)
    (hkeys : ∀ r, (slotsOf r).map Prod.fst = (places r).map key)
    (hplaces : ∀ r place text, Holds r place text → place ∈ places r)
    (hnodup : ((records.flatMap places).map key).Nodup) :
    (ofSlots surface (records.flatMap slotsOf)).Corresponds records Holds key
      fun r => (places r).length := by
  have hdistinct : ((records.flatMap slotsOf).map Prod.fst).Nodup := by
    simpa only [List.map_flatMap, hkeys] using hnodup
  have hmem : ∀ {r place text}, r ∈ records → Holds r place text →
      (key place, text) ∈ records.flatMap slotsOf := fun hr hholds =>
    List.mem_flatMap.mpr ⟨_, hr, (hslots _ _).mpr ⟨_, hholds, rfl⟩⟩
  refine ⟨?_, fun k text => ?_, ?_⟩
  · intro r hr r' hr' place place' text text' hholds hholds' hkey
    have hplace := hplaces r place text hholds
    have hplace' := hplaces r' place' text' hholds'
    obtain rfl := List.inj_on_of_nodup_map hnodup (List.mem_flatMap.mpr ⟨r, hr, hplace⟩)
      (List.mem_flatMap.mpr ⟨r', hr', hplace'⟩) hkey
    refine ⟨eq_of_nodup_flatMap (hnodup.of_map key) hr hr' hplace hplace', rfl, ?_⟩
    exact congrArg Prod.snd (List.inj_on_of_nodup_map hdistinct (hmem hr hholds)
      (hmem hr' hholds') rfl)
  · rw [entries_ofSlots hdistinct, getElem?_ofList_eq_some_iff hdistinct, List.mem_flatMap]
    simp only [hslots]
  · rw [size_ofSlots hdistinct, List.length_flatMap]
    congr 1
    refine List.map_congr_left fun r _ => ?_
    simpa using congrArg List.length (hkeys r)

end Bundle

/-! ## Chapters -/

/-- The places of the texts of a node. -/
def Node.places (n : Node) : List ChapterPlace :=
  .text n.id :: (List.range n.next.options.length).map (.option n.id)

/-- The places of the texts of a chapter. -/
def Chapter.places (c : Chapter) : List ChapterPlace :=
  .title c.number :: c.nodes.flatMap Node.places

/-- The name of the node, if the text is one of a node. -/
def ChapterPlace.node? : ChapterPlace → Option String
  | title _ => none
  | text node => some node
  | option node _ => some node

theorem Node.map_fst_slots (n : Node) : n.slots.map Prod.fst = n.places.map ChapterPlace.key := by
  have hoptions : n.next.options.zipIdx.map Prod.snd = List.range n.next.options.length := by
    rw [List.zipIdx_map_snd, List.range_eq_range']
  rw [slots, places, ← hoptions, List.map_cons, List.map_cons, List.map_map, List.map_map,
    List.map_map]
  rfl

theorem Chapter.map_fst_slots (c : Chapter) :
    c.slots.map Prod.fst = c.places.map ChapterPlace.key := by
  simp only [slots, places, List.map_cons, List.map_flatMap, Node.map_fst_slots]
  rfl

theorem Node.node?_of_mem_places {n : Node} {place : ChapterPlace} (h : place ∈ n.places) :
    place.node? = some n.id := by
  rcases List.mem_cons.mp h with rfl | h
  · rfl
  · obtain ⟨_, _, rfl⟩ := List.mem_map.mp h
    rfl

theorem Node.nodup_places (n : Node) : n.places.Nodup := by
  refine List.nodup_cons.mpr ⟨by simp, List.nodup_range.map fun i j h => ?_⟩
  exact (ChapterPlace.option.inj h).2

theorem Chapter.Holds.mem_places {c : Chapter} {place : ChapterPlace} {text : Translations}
    (h : c.Holds place text) : place ∈ c.places := by
  cases h with
  | title => exact .head _
  | text hn => exact .tail _ (List.mem_flatMap.mpr ⟨_, hn, .head _⟩)
  | option hn ho =>
      refine .tail _ (List.mem_flatMap.mpr ⟨_, hn, .tail _ (List.mem_map.mpr ⟨_, ?_, rfl⟩)⟩)
      exact List.mem_range.mpr (List.getElem?_eq_some_iff.mp ho).1

/-- No place is listed twice if numbers and names are distinct. -/
theorem nodup_chapterPlaces {chapters : List Chapter}
    (hnumbers : (chapters.map Chapter.number).Nodup)
    (hids : (chapters.flatMap Chapter.ids).Nodup) : (chapters.flatMap Chapter.places).Nodup := by
  have htitles : (chapters.flatMap fun c => [ChapterPlace.title c.number]).Nodup := by
    have hmap := hnumbers.map (f := ChapterPlace.title) fun _ _ => ChapterPlace.title.inj
    rwa [List.map_map, List.map_eq_flatMap] at hmap
  have hnodes : ((chapters.flatMap Chapter.nodes).flatMap Node.places).Nodup := by
    refine nodup_flatMap_of_owner ChapterPlace.node? (some ∘ Node.id) ?_
      (fun n _ => n.nodup_places) fun n _ _ hplace => Node.node?_of_mem_places hplace
    have hmap := hids.map (f := some) fun _ _ => Option.some.inj
    simpa only [List.map_flatMap, Chapter.ids, List.map_map] using hmap
  have hperm := List.flatMap_append_perm chapters (fun c => [ChapterPlace.title c.number])
    fun c => c.nodes.flatMap Node.places
  rw [← List.flatMap_assoc] at hperm
  refine hperm.nodup_iff.mp (List.nodup_append.mpr ⟨htitles, hnodes, ?_⟩)
  intro place htitle place' hnode heq
  obtain ⟨_, _, htitle⟩ := List.mem_flatMap.mp htitle
  obtain ⟨_, _, hnode⟩ := List.mem_flatMap.mp hnode
  rw [← heq, List.mem_singleton.mp htitle] at hnode
  cases Node.node?_of_mem_places hnode

/-! ## Cases -/

/-- The places of the texts of a case. -/
def Case.places (c : Case) : List CasePlace :=
  [.title c.caseId, .scenario c.caseId, .solution c.caseId]
    ++ (List.range c.hints.length).map (.hint c.caseId) ++ c.ids.map (.question c.caseId)

theorem Case.map_fst_slots (c : Case) : c.slots.map Prod.fst = c.places.map CasePlace.key := by
  have hhints : c.hints.zipIdx.map Prod.snd = List.range c.hints.length := by
    rw [List.zipIdx_map_snd, List.range_eq_range']
  simp only [slots, places, ids, ← hhints, List.map_append, List.map_map, List.map_cons,
    List.map_nil]
  rfl

theorem Case.Holds.mem_places {c : Case} {place : CasePlace} {text : Translations}
    (h : c.Holds place text) : place ∈ c.places := by
  simp only [places, List.mem_append, List.mem_cons, List.not_mem_nil, or_false, List.mem_map,
    List.mem_range]
  cases h with
  | title => exact .inl (.inl (.inl rfl))
  | scenario => exact .inl (.inl (.inr (.inl rfl)))
  | solution => exact .inl (.inl (.inr (.inr rfl)))
  | hint hhint => exact .inl (.inr ⟨_, (List.getElem?_eq_some_iff.mp hhint).1, rfl⟩)
  | question hq => exact .inr ⟨_, List.mem_map_of_mem hq, rfl⟩

theorem Case.case_of_mem_places {c : Case} {place : CasePlace} (h : place ∈ c.places) :
    place.case = c.caseId := by
  simp only [places, List.mem_append, List.mem_cons, List.not_mem_nil, or_false, List.mem_map] at h
  rcases h with ((rfl | rfl | rfl) | ⟨_, _, rfl⟩) | ⟨_, _, rfl⟩ <;> rfl

theorem Case.nodup_places {c : Case} (hids : c.ids.Nodup) : c.places.Nodup := by
  have hhints : ((List.range c.hints.length).map (CasePlace.hint c.caseId)).Nodup :=
    List.nodup_range.map fun _ _ h => (CasePlace.hint.inj h).2
  have hquestions : (c.ids.map (CasePlace.question c.caseId)).Nodup :=
    hids.map fun _ _ h => (CasePlace.question.inj h).2
  simp [places, List.nodup_append, hhints, hquestions]

/-- A name without a dot ends at the first dot, whatever comes then. -/
theorem fullName_inj {case case' id id' : String} (h : '.' ∉ case.toList)
    (h' : '.' ∉ case'.toList) :
    case ++ "." ++ id = case' ++ "." ++ id' ↔ case = case' ∧ id = id' := by
  have hlist := append_separator_inj (x := id.toList) (y := id'.toList) (.inl ⟨h, h'⟩)
  simpa [← String.toList_inj] using hlist

/-- Places of cases without dots in their names never have the same key. -/
theorem CasePlace.key_inj_of_notMem {p q : CasePlace} (hp : '.' ∉ p.case.toList)
    (hq : '.' ∉ q.case.toList) : p.key = q.key ↔ p = q := by
  refine ⟨fun hkey => ?_, fun h => h ▸ rfl⟩
  rcases key_eq_iff.mp hkey with heq | ⟨case, id, case', id', rfl, rfl, hname⟩
  · exact heq
  · obtain ⟨rfl, rfl⟩ := (fullName_inj hp hq).mp hname
    rfl

/-- No key of a case is listed twice if names are distinct and those of cases hold no dots. -/
theorem nodup_caseKeys {cases : List Case} (hnames : (cases.map Case.caseId).Nodup)
    (hdots : ∀ c ∈ cases, '.' ∉ c.caseId.toList) (hids : ∀ c ∈ cases, c.ids.Nodup) :
    ((cases.flatMap Case.places).map CasePlace.key).Nodup := by
  have hplaces : (cases.flatMap Case.places).Nodup :=
    nodup_flatMap_of_owner CasePlace.case Case.caseId hnames
      (fun c hc => Case.nodup_places (hids c hc)) fun _ _ _ => Case.case_of_mem_places
  have hdot : ∀ place ∈ cases.flatMap Case.places, '.' ∉ place.case.toList := by
    intro place hplace
    obtain ⟨c, hc, hplace⟩ := List.mem_flatMap.mp hplace
    rw [Case.case_of_mem_places hplace]
    exact hdots c hc
  exact hplaces.map_on fun p hp q hq =>
    (CasePlace.key_inj_of_notMem (hdot p hp) (hdot q hq)).mp

/-! ## Bundles of records -/

theorem Chapter.length_places (c : Chapter) :
    c.places.length = 1 + (c.nodes.map fun n => 1 + n.next.options.length).sum := by
  simp [places, Node.places, List.length_flatMap, Nat.add_comm]

theorem Case.length_places (c : Case) :
    c.places.length = 3 + c.hints.length + c.questions.length := by
  simp [places, ids]
  omega

/-- If the numbers of chapters and the names of all their nodes are distinct, the keys of their
bundle correspond to their titles, the texts of their nodes and those of the options.  If the
names of cases are distinct and hold no dots, and so are the names of the questions of each case,
the keys of their bundle correspond to their three texts, their hints and their questions. -/
theorem keys_correspond :
    (∀ chapters : List Chapter, (chapters.map Chapter.number).Nodup →
      (chapters.flatMap Chapter.ids).Nodup →
      (Bundle.ofChapters chapters).Corresponds chapters Chapter.Holds ChapterPlace.key
        fun c => 1 + (c.nodes.map fun n => 1 + n.next.options.length).sum) ∧
    ∀ cases : List Case, (cases.map Case.caseId).Nodup → (∀ c ∈ cases, '.' ∉ c.caseId.toList) →
      (∀ c ∈ cases, c.ids.Nodup) →
      (Bundle.ofCases cases).Corresponds cases Case.Holds CasePlace.key
        fun c => 3 + c.hints.length + c.questions.length := by
  constructor
  · intro chapters hnumbers hids
    simp only [← Chapter.length_places]
    refine Bundle.corresponds_ofSlots (fun _ _ => Chapter.mem_slots_iff) Chapter.map_fst_slots
      (fun _ _ _ => Chapter.Holds.mem_places) ?_
    exact (nodup_chapterPlaces hnumbers hids).map fun _ _ => ChapterPlace.key_inj.mp
  · intro cases hnames hdots hids
    simp only [← Case.length_places]
    exact Bundle.corresponds_ofSlots (fun _ _ => Case.mem_slots_iff) Case.map_fst_slots
      (fun _ _ _ => Case.Holds.mem_places) (nodup_caseKeys hnames hdots hids)

/-- A chapter with nodes that are named like keys. -/
def tangledChapter : Chapter where
  number := 1
  title := english "Keys"
  entry := "CH1_START"
  tracks := []
  nodes :=
    [{ id := "chapter.1"
       kind := .choice
       speaker := none
       text := english "Where to?"
       next := .choice [⟨english "On", "chapter.1.option"⟩]
       pov := .shared
       tags := ∅ },
     { id := "chapter.1.option"
       kind := .chapterEnd
       speaker := none
       text := english "The end."
       next := .ending
       pov := .shared
       tags := ∅ }]

/-- A case with questions that are named like keys. -/
def tangledCase : Case where
  number := 1
  caseId := "hint"
  title := english "Keys"
  difficulty := .easy
  scenario := english "A door is locked."
  questions :=
    [{ id := "hint.0", text := english "Is it locked?", answer := .yes, unlocks := [] },
     { id := "title", text := english "Is there a key?", answer := .no, unlocks := [.solution] }]
  solution := english "It is painted on the wall."
  hints := [english "Try to open it."]
  estimatedTime := none

/-- The records have four and six texts, and their bundles have as many keys. -/
theorem keys_correspond_tangled :
    (Bundle.ofChapters [tangledChapter]).size = 4 ∧
    (Bundle.ofChapters [tangledChapter]).entries["chapter.1.option.0"]? = some (english "On") ∧
    (Bundle.ofCases [tangledCase]).size = 6 ∧
    (Bundle.ofCases [tangledCase]).entries["hint.hint.0.text"]? =
      some (english "Is it locked?") := by
  have hchapters := keys_correspond.1 [tangledChapter] (by decide) (by decide)
  have hcases := keys_correspond.2 [tangledCase] (by decide) (by decide) (by decide)
  have hoption : tangledChapter.Holds (.option "chapter.1" 0) (english "On") :=
    Chapter.holds_option_iff.mpr ⟨_, .head _, rfl, rfl⟩
  have hquestion : tangledCase.Holds (.question "hint" "hint.0") (english "Is it locked?") :=
    Case.holds_question_iff.mpr ⟨rfl, _, .head _, rfl, rfl⟩
  exact ⟨hchapters.size, (hchapters.entries _ _).mpr ⟨_, .head _, _, hoption, by decide⟩,
    hcases.size, (hcases.entries _ _).mpr ⟨_, .head _, _, hquestion, by decide⟩⟩

end BranchingStory
