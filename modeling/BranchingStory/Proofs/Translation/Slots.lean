import Mathlib.Data.List.Nodup
import BranchingStory.Locale.Bundle
import BranchingStory.Proofs.Numerals

/-!
# The keys of compiled texts

Each text of a compiled record has a place in the record, and its key is written from the place.
`Chapter.Holds` and `Case.Holds` say which text stands at which place, and the slots of a record
are these texts under the keys of their places (`Chapter.mem_slots_iff`, `Case.mem_slots_iff`).

What follows the last dot of a key is a fixed word or a number, and tells the kind of the place.
So two places of chapters never have the same key (`ChapterPlace.key_inj`).  Names of cases and
of questions may hold dots, so two questions have the same key exactly if their full names, the
name of the case, a dot and the name of the question, are the same (`CasePlace.key_eq_iff`).
-/

namespace BranchingStory

/-! ## The last part of a key -/

/-- A text is determined by what stands before and after its last dot. -/
theorem append_dot_inj {a b x y : String} (hx : '.' ∉ x.toList) (hy : '.' ∉ y.toList) :
    a ++ "." ++ x = b ++ "." ++ y ↔ a = b ∧ x = y := by
  have hlist := append_separator_inj (a := a.toList) (b := b.toList) (.inr ⟨hx, hy⟩)
  simpa [← String.toList_inj] using hlist

/-! ## Chapters -/

/-- Where a text of a chapter stands. -/
inductive ChapterPlace where
  /-- The title of the chapter of a number. -/
  | title (chapter : Nat)
  /-- The text of a node. -/
  | text (node : String)
  /-- The text of an option of a node. -/
  | option (node : String) (position : Nat)
deriving DecidableEq, Repr

/-- The key of a text by its place. -/
def ChapterPlace.key : ChapterPlace → String
  | title chapter => "chapter." ++ chapter.repr ++ ".title"
  | text node => node ++ ".text"
  | option node position => node ++ ".option." ++ position.repr

namespace ChapterPlace

/-- What stands before the last dot of the key. -/
def stem : ChapterPlace → String
  | title chapter => "chapter." ++ chapter.repr
  | text node => node
  | option node _ => node ++ ".option"

/-- What stands after the last dot of the key. -/
def tail : ChapterPlace → String
  | title _ => "title"
  | text _ => "text"
  | option _ position => position.repr

theorem key_eq (p : ChapterPlace) : p.key = p.stem ++ "." ++ p.tail := by
  cases p <;> simp [key, stem, tail, ← String.toList_inj]

theorem dot_notMem_tail (p : ChapterPlace) : '.' ∉ p.tail.toList := by
  cases p with
  | option node position => exact notMem_repr (by decide) position
  | _ => simp [tail]

/-- Two places of chapters never have the same key. -/
theorem key_inj {p q : ChapterPlace} : p.key = q.key ↔ p = q := by
  refine ⟨fun h => ?_, fun h => h ▸ rfl⟩
  rw [key_eq, key_eq, append_dot_inj p.dot_notMem_tail q.dot_notMem_tail] at h
  obtain ⟨hstem, htail⟩ := h
  have htitle (n : Nat) : n.repr ≠ "title" := repr_ne_word (by decide) n
  have htext (n : Nat) : n.repr ≠ "text" := repr_ne_word (by decide) n
  cases p <;> cases q <;>
    simp_all [stem, tail, fun n => (htitle n).symm, fun n => (htext n).symm]

end ChapterPlace

/-- The text that stands at a place of a chapter. -/
inductive Chapter.Holds (c : Chapter) : ChapterPlace → Translations → Prop where
  | title : Holds c (.title c.number) c.title
  | text {n : Node} : n ∈ c.nodes → Holds c (.text n.id) n.text
  | option {n : Node} {o : Choice} {i : Nat} :
      n ∈ c.nodes → n.next.options[i]? = some o → Holds c (.option n.id i) o.text

theorem Chapter.holds_title_iff {c : Chapter} {number : Nat} {text : Translations} :
    c.Holds (.title number) text ↔ c.number = number ∧ c.title = text := by
  constructor
  · rintro ⟨⟩
    exact ⟨rfl, rfl⟩
  · rintro ⟨rfl, rfl⟩
    exact .title

theorem Chapter.holds_text_iff {c : Chapter} {id : String} {text : Translations} :
    c.Holds (.text id) text ↔ ∃ n ∈ c.nodes, n.id = id ∧ n.text = text := by
  constructor
  · rintro ⟨⟩
    exact ⟨_, ‹_›, rfl, rfl⟩
  · rintro ⟨n, hn, rfl, rfl⟩
    exact .text hn

theorem Chapter.holds_option_iff {c : Chapter} {id : String} {i : Nat} {text : Translations} :
    c.Holds (.option id i) text ↔
      ∃ n ∈ c.nodes, n.id = id ∧ n.next.options[i]?.map Choice.text = some text := by
  constructor
  · rintro ⟨⟩
    rename_i n o hn ho
    exact ⟨n, hn, rfl, by rw [ho, Option.map_some]⟩
  · rintro ⟨n, hn, rfl, hoption⟩
    obtain ⟨o, ho, rfl⟩ := Option.map_eq_some_iff.mp hoption
    exact .option hn ho

/-- In a chapter with distinct names one text stands at each place. -/
theorem Chapter.Holds.unique {c : Chapter} (hids : c.ids.Nodup) {place : ChapterPlace}
    {text text' : Translations} (h : c.Holds place text) (h' : c.Holds place text') :
    text = text' := by
  have hnode : ∀ {n n' : Node}, n ∈ c.nodes → n' ∈ c.nodes → n.id = n'.id → n = n' :=
    fun hn hn' => List.inj_on_of_nodup_map hids hn hn'
  cases place with
  | title number =>
      exact (Chapter.holds_title_iff.mp h).2.symm.trans (Chapter.holds_title_iff.mp h').2
  | text id =>
      obtain ⟨n, hn, hid, rfl⟩ := Chapter.holds_text_iff.mp h
      obtain ⟨n', hn', hid', rfl⟩ := Chapter.holds_text_iff.mp h'
      rw [hnode hn hn' (hid.trans hid'.symm)]
  | option id i =>
      obtain ⟨n, hn, hid, ho⟩ := Chapter.holds_option_iff.mp h
      obtain ⟨n', hn', hid', ho'⟩ := Chapter.holds_option_iff.mp h'
      obtain rfl := hnode hn hn' (hid.trans hid'.symm)
      exact Option.some.inj (ho.symm.trans ho')

/-- The slots of a chapter are its texts under the keys of their places. -/
theorem Chapter.mem_slots_iff {c : Chapter} {slot : String × Translations} :
    slot ∈ c.slots ↔ ∃ place, c.Holds place slot.2 ∧ place.key = slot.1 := by
  simp only [slots, Node.slots, List.mem_cons, List.mem_flatMap, List.mem_map]
  constructor
  · rintro (rfl | ⟨n, hn, rfl | ⟨⟨o, i⟩, ho, rfl⟩⟩)
    · exact ⟨_, .title, rfl⟩
    · exact ⟨_, .text hn, rfl⟩
    · exact ⟨_, .option hn (List.mem_zipIdx_iff_getElem?.mp ho), rfl⟩
  · obtain ⟨key, text⟩ := slot
    rintro ⟨place, hplace, rfl⟩
    cases hplace with
    | title => exact .inl rfl
    | text hn => exact .inr ⟨_, hn, .inl rfl⟩
    | option hn ho => exact .inr ⟨_, hn, .inr ⟨(_, _), List.mem_zipIdx_iff_getElem?.mpr ho, rfl⟩⟩

theorem mem_chapterSlots_iff {chapters : List Chapter} {slot : String × Translations} :
    slot ∈ chapters.flatMap Chapter.slots ↔
      ∃ c ∈ chapters, ∃ place, c.Holds place slot.2 ∧ place.key = slot.1 := by
  simp only [List.mem_flatMap, Chapter.mem_slots_iff]

/-! ## Cases -/

/-- Where a text of a case stands. -/
inductive CasePlace where
  | title (case : String)
  | scenario (case : String)
  | solution (case : String)
  | hint (case : String) (position : Nat)
  | question (case question : String)
deriving DecidableEq, Repr

/-- The key of a text by its place. -/
def CasePlace.key : CasePlace → String
  | title case => case ++ ".title"
  | scenario case => case ++ ".scenario"
  | solution case => case ++ ".solution"
  | hint case position => case ++ ".hint." ++ position.repr
  | question case id => case ++ "." ++ id ++ ".text"

namespace CasePlace

/-- What stands before the last dot of the key. -/
def stem : CasePlace → String
  | title case => case
  | scenario case => case
  | solution case => case
  | hint case _ => case ++ ".hint"
  | question case id => case ++ "." ++ id

/-- What stands after the last dot of the key. -/
def tail : CasePlace → String
  | title _ => "title"
  | scenario _ => "scenario"
  | solution _ => "solution"
  | hint _ position => position.repr
  | question _ _ => "text"

theorem key_eq (p : CasePlace) : p.key = p.stem ++ "." ++ p.tail := by
  cases p <;> simp [key, stem, tail, String.append_assoc]

theorem dot_notMem_tail (p : CasePlace) : '.' ∉ p.tail.toList := by
  cases p with
  | hint case position => exact notMem_repr (by decide) position
  | _ => simp [tail]

/-- Two places of cases have the same key exactly if they are the same place, or if they are
those of questions with the same full name. -/
theorem key_eq_iff {p q : CasePlace} :
    p.key = q.key ↔ p = q ∨ ∃ case id case' id',
      p = .question case id ∧ q = .question case' id' ∧
      case ++ "." ++ id = case' ++ "." ++ id' := by
  rw [key_eq, key_eq, append_dot_inj p.dot_notMem_tail q.dot_notMem_tail]
  have htitle (n : Nat) : n.repr ≠ "title" := repr_ne_word (by decide) n
  have hscenario (n : Nat) : n.repr ≠ "scenario" := repr_ne_word (by decide) n
  have hsolution (n : Nat) : n.repr ≠ "solution" := repr_ne_word (by decide) n
  have htext (n : Nat) : n.repr ≠ "text" := repr_ne_word (by decide) n
  cases p <;> cases q <;>
    simp [stem, tail, htitle, hscenario, hsolution, htext, fun n => (htitle n).symm,
      fun n => (hscenario n).symm, fun n => (hsolution n).symm, fun n => (htext n).symm]
  case question.question => rintro rfl rfl; rfl

/-- Only a question has the key of a question. -/
theorem eq_of_key_eq {p q : CasePlace} (hkey : p.key = q.key)
    (hq : ∀ case id, q ≠ .question case id) : p = q := by
  rcases key_eq_iff.mp hkey with heq | ⟨_, _, case, id, _, hquestion, _⟩
  · exact heq
  · exact absurd hquestion (hq case id)

/-- What has the key of a question is a question of the same full name. -/
theorem key_eq_question_iff {p : CasePlace} {case id : String} :
    p.key = (question case id).key ↔ ∃ case' id', p = .question case' id' ∧
      case' ++ "." ++ id' = case ++ "." ++ id := by
  rw [key_eq_iff]
  constructor
  · rintro (rfl | ⟨case', id', _, _, rfl, hquestion, hname⟩)
    · exact ⟨case, id, rfl, rfl⟩
    · obtain ⟨rfl, rfl⟩ := question.inj hquestion
      exact ⟨case', id', rfl, hname⟩
  · rintro ⟨case', id', rfl, hname⟩
    exact .inr ⟨case', id', case, id, rfl, rfl, hname⟩

/-- The name of the case. -/
def case : CasePlace → String
  | title case => case
  | scenario case => case
  | solution case => case
  | hint case _ => case
  | question case _ => case

end CasePlace

/-- The text that stands at a place of a case. -/
inductive Case.Holds (c : Case) : CasePlace → Translations → Prop where
  | title : Holds c (.title c.caseId) c.title
  | scenario : Holds c (.scenario c.caseId) c.scenario
  | solution : Holds c (.solution c.caseId) c.solution
  | hint {text : Translations} {i : Nat} :
      c.hints[i]? = some text → Holds c (.hint c.caseId i) text
  | question {q : Question} : q ∈ c.questions → Holds c (.question c.caseId q.id) q.text

theorem Case.Holds.case_eq {c : Case} {place : CasePlace} {text : Translations}
    (h : c.Holds place text) : place.case = c.caseId := by
  cases h <;> rfl

theorem Case.holds_hint_iff {c : Case} {case : String} {i : Nat} {text : Translations} :
    c.Holds (.hint case i) text ↔ c.caseId = case ∧ c.hints[i]? = some text := by
  constructor
  · rintro ⟨⟩
    exact ⟨rfl, ‹_›⟩
  · rintro ⟨rfl, hhint⟩
    exact .hint hhint

theorem Case.holds_question_iff {c : Case} {case id : String} {text : Translations} :
    c.Holds (.question case id) text ↔
      c.caseId = case ∧ ∃ q ∈ c.questions, q.id = id ∧ q.text = text := by
  constructor
  · rintro ⟨⟩
    exact ⟨rfl, _, ‹_›, rfl, rfl⟩
  · rintro ⟨rfl, q, hq, rfl, rfl⟩
    exact .question hq

/-- In a case with distinct names of questions one text stands at each place. -/
theorem Case.Holds.unique {c : Case} (hids : c.ids.Nodup) {place : CasePlace}
    {text text' : Translations} (h : c.Holds place text) (h' : c.Holds place text') :
    text = text' := by
  cases h with
  | title => cases h'; rfl
  | scenario => cases h'; rfl
  | solution => cases h'; rfl
  | hint hhint =>
      cases h' with
      | hint hhint' => exact Option.some.inj (hhint.symm.trans hhint')
  | question hq =>
      obtain ⟨_, q', hq', hid, rfl⟩ := Case.holds_question_iff.mp h'
      rw [List.inj_on_of_nodup_map hids hq hq' hid.symm]

/-- In one case two places have the same key only if they are the same place. -/
theorem Case.Holds.place_eq {c : Case} {place place' : CasePlace} {text text' : Translations}
    (h : c.Holds place text) (h' : c.Holds place' text') (hkey : place.key = place'.key) :
    place = place' := by
  rcases CasePlace.key_eq_iff.mp hkey with heq | ⟨case, id, case', id', rfl, rfl, hname⟩
  · exact heq
  · obtain ⟨rfl, _⟩ := Case.holds_question_iff.mp h
    obtain ⟨rfl, _⟩ := Case.holds_question_iff.mp h'
    rw [(String.append_right_inj _).mp hname]

/-- The slots of a case are its texts under the keys of their places. -/
theorem Case.mem_slots_iff {c : Case} {slot : String × Translations} :
    slot ∈ c.slots ↔ ∃ place, c.Holds place slot.2 ∧ place.key = slot.1 := by
  simp only [slots, List.mem_append, List.mem_cons, List.not_mem_nil, or_false, List.mem_map]
  constructor
  · rintro (((rfl | rfl | rfl) | ⟨⟨hint, i⟩, hhint, rfl⟩) | ⟨q, hq, rfl⟩)
    · exact ⟨_, .title, rfl⟩
    · exact ⟨_, .scenario, rfl⟩
    · exact ⟨_, .solution, rfl⟩
    · exact ⟨_, .hint (List.mem_zipIdx_iff_getElem?.mp hhint), rfl⟩
    · exact ⟨_, .question hq, rfl⟩
  · obtain ⟨key, text⟩ := slot
    rintro ⟨place, hplace, rfl⟩
    cases hplace with
    | title => exact .inl (.inl (.inl rfl))
    | scenario => exact .inl (.inl (.inr (.inl rfl)))
    | solution => exact .inl (.inl (.inr (.inr rfl)))
    | hint hhint => exact .inl (.inr ⟨(_, _), List.mem_zipIdx_iff_getElem?.mpr hhint, rfl⟩)
    | question hq => exact .inr ⟨_, hq, rfl⟩

theorem mem_caseSlots_iff {cases : List Case} {slot : String × Translations} :
    slot ∈ cases.flatMap Case.slots ↔
      ∃ c ∈ cases, ∃ place, c.Holds place slot.2 ∧ place.key = slot.1 := by
  simp only [List.mem_flatMap, Case.mem_slots_iff]

end BranchingStory
