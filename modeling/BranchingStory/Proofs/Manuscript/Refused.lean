import BranchingStory.Compile.Case
import BranchingStory.Proofs.Chapter.WellFormed

/-!
# Refused drafts

A draft that does not compile gives its problems instead.  There is always one, so no draft is
refused without a reason.  Each is a problem of a field of this record or of one of its parts,
and none is about the number of the record, which is looked at only where records are put
together.
-/

namespace BranchingStory

/-! ## Problems of a record -/

/-- A problem of a field of a record or of one of its parts, whose origins are given.  The
field is not the number of the record. -/
def Diagnostic.Faults (origin : Option String → Origin) (d : Diagnostic) : Prop :=
  ∃ part field reason, d = .malformed (origin part) field reason ∧ field ≠ "number"

variable {e : Edition} {d : Diagnostic} {origin : Option String → Origin}

theorem Edition.faults_of_mem_textProblems {part : Option String} {field : String}
    {text : Translations} (hfield : field ≠ "number")
    (h : d ∈ e.textProblems (origin part) field text) : d.Faults origin := by
  obtain ⟨_, rfl⟩ := mem_textProblems_iff.mp h
  exact ⟨part, field, _, rfl, hfield⟩

/-- A field whose name begins otherwise is not the number. -/
theorem append_ne_number {first rest : String} (start : Char) (hstart : start ≠ 'n')
    (hfirst : first.toList.head? = some start) : first ++ rest ≠ "number" := by
  intro h
  have hlist : first.toList ++ rest.toList = "number".toList := by
    rw [← String.toList_append, h]
  obtain ⟨chars, hchars⟩ := List.head?_eq_some_iff.mp hfirst
  rw [hchars] at hlist
  exact hstart (List.cons.inj hlist).1

/-! ## Chapters -/

namespace Placement

variable {p : Placement} {chapter : Nat}

theorem faults_problem {field reason : String} (hfield : field ≠ "number") :
    (p.problem chapter field reason).Faults (.chapter chapter) :=
  ⟨some p.id, field, reason, rfl, hfield⟩

theorem faults_of_mem_kindProblems (h : d ∈ p.kindProblems chapter) :
    d.Faults (.chapter chapter) := by
  have hfield : "kind" ≠ "number" := by decide
  rw [kindProblems] at h
  split at h
  · exact List.mem_singleton.mp h ▸ faults_problem hfield
  · split at h
    · exact List.mem_singleton.mp h ▸ faults_problem hfield
    · split at h
      · simp at h
      · exact List.mem_singleton.mp h ▸ faults_problem hfield

theorem faults_of_mem_speakerProblems (h : d ∈ p.speakerProblems chapter) :
    d.Faults (.chapter chapter) := by
  rw [speakerProblems] at h
  split at h
  · split at h
    · exact List.mem_singleton.mp h ▸ faults_problem (by decide)
    · simp at h
  · simp at h

theorem faults_of_mem_optionProblems (h : d ∈ p.optionProblems e chapter) :
    d.Faults (.chapter chapter) := by
  obtain ⟨⟨o, i⟩, _, h⟩ := List.mem_flatMap.mp h
  refine Edition.faults_of_mem_textProblems ?_ h
  rw [String.append_assoc]
  exact append_ne_number 'o' (by decide) rfl

theorem faults_of_mem_linkProblems (h : d ∈ p.linkProblems e chapter) :
    d.Faults (.chapter chapter) := by
  rw [linkProblems] at h
  split at h
  · simp at h
  · rcases List.mem_append.mp h with h | h
    · split at h
      · exact List.mem_singleton.mp h ▸ faults_problem (by decide)
      · simp at h
    · split at h
      · simp at h
      · exact List.mem_singleton.mp h ▸ faults_problem (by decide)
      · exact faults_of_mem_optionProblems h
  · split at h
    · simp at h
    · exact List.mem_singleton.mp h ▸ faults_problem (by decide)

/-- Every problem of a node is one of its chapter. -/
theorem faults_of_mem_problems (h : d ∈ p.problems e chapter) : d.Faults (.chapter chapter) := by
  simp only [problems, List.mem_append] at h
  rcases h with ((h | h) | h) | h
  · exact faults_of_mem_kindProblems h
  · exact faults_of_mem_speakerProblems h
  · exact Edition.faults_of_mem_textProblems (by decide) h
  · exact faults_of_mem_linkProblems h

end Placement

namespace ChapterDraft

variable {c : ChapterDraft} {problems : List Diagnostic}

theorem faults_problem {field reason : String} (hfield : field ≠ "number") :
    (c.problem field reason).Faults (.chapter c.number) :=
  ⟨none, field, reason, rfl, hfield⟩

theorem faults_of_mem_trackProblems {t : TrackDraft} {i : Nat} (h : d ∈ c.trackProblems t i) :
    d.Faults (.chapter c.number) := by
  have hfield : ∀ field, "tracks[" ++ i.repr ++ "]." ++ field ≠ "number" := by
    intro field
    rw [String.append_assoc, String.append_assoc]
    exact append_ne_number 't' (by decide) rfl
  simp only [trackProblems, List.mem_append, List.mem_ite_nil_right, List.mem_singleton] at h
  rcases h with (⟨_, rfl⟩ | ⟨_, rfl⟩) | ⟨_, rfl⟩
  · exact faults_problem (hfield _)
  · exact faults_problem (hfield _)
  · exact faults_problem (hfield _)

theorem faults_of_mem_outlineProblems (h : d ∈ c.outlineProblems e) :
    d.Faults (.chapter c.number) := by
  simp only [outlineProblems, List.mem_append, List.mem_ite_nil_right, List.mem_singleton] at h
  rcases h with (((h | ⟨_, rfl⟩) | h) | ⟨_, rfl⟩) | ⟨_, rfl⟩
  · exact Edition.faults_of_mem_textProblems (by decide) h
  · exact faults_problem (by decide)
  · obtain ⟨⟨t, i⟩, _, h⟩ := List.mem_flatMap.mp h
    exact faults_of_mem_trackProblems h
  · exact faults_problem (by decide)
  · exact faults_problem (by decide)

/-- The outline of a chapter without a layout has a problem. -/
theorem outlineProblems_ne_nil (h : c.layout? = none) : c.outlineProblems e ≠ [] := by
  intro hnil
  obtain ⟨_, hprologue, ⟨_, htracks⟩, hinvestigation, hending⟩ := outlineProblems_eq_nil_iff.mp hnil
  obtain ⟨l, hl⟩ := exists_layout hprologue (fun t ht => (htracks t ht).2) hinvestigation hending
  rw [h] at hl
  cases hl

/-- A refused chapter has a problem, and all of its problems are about it. -/
theorem faults_of_compile (h : c.compile e = .error problems) :
    problems ≠ [] ∧ ∀ d ∈ problems, d.Faults (.chapter c.number) := by
  rw [compile] at h
  split at h
  · rename_i hlayout
    obtain rfl := Except.error.inj h
    exact ⟨outlineProblems_ne_nil hlayout, fun d hd => faults_of_mem_outlineProblems hd⟩
  · split at h
    · dsimp only at h
      split at h
      · simp at h
      · obtain rfl := Except.error.inj h
        refine ⟨by simp, fun d hd => ?_⟩
        exact List.mem_singleton.mp hd ▸ faults_problem (by decide)
    · rename_i hproblems
      obtain rfl := Except.error.inj h
      refine ⟨fun hnil => hproblems hnil, fun d hd => ?_⟩
      rcases List.mem_append.mp hd with hd | hd
      · exact faults_of_mem_outlineProblems hd
      · obtain ⟨p, _, hd⟩ := List.mem_flatMap.mp hd
        exact Placement.faults_of_mem_problems hd

end ChapterDraft

/-! ## Cases -/

theorem QuestionDraft.faults_of_mem_problems {q : QuestionDraft} {case position : Nat}
    (h : d ∈ q.problems e case position) : d.Faults (.case case) := by
  have hanswer : ∀ reason, (Diagnostic.malformed (.case case (some (q.nameAt position))) "answer"
      reason).Faults (.case case) := fun reason => ⟨_, _, _, rfl, by decide⟩
  rcases List.mem_append.mp h with h | h
  · exact Edition.faults_of_mem_textProblems (by decide) h
  · split at h
    · exact List.mem_singleton.mp h ▸ hanswer _
    · split at h
      · simp at h
      · exact List.mem_singleton.mp h ▸ hanswer _

namespace CaseDraft

variable {c : CaseDraft} {problems : List Diagnostic}

theorem faults_malformed {field reason : String} (hfield : field ≠ "number") :
    (Diagnostic.malformed (.case c.number none) field reason).Faults (.case c.number) :=
  ⟨none, field, reason, rfl, hfield⟩

theorem faults_of_mem_outlineProblems (h : d ∈ c.outlineProblems e) :
    d.Faults (.case c.number) := by
  simp only [outlineProblems, List.mem_append, List.mem_ite_nil_right, List.mem_singleton] at h
  rcases h with ((((h | h) | h) | h) | h) | ⟨_, rfl⟩
  · exact Edition.faults_of_mem_textProblems (by decide) h
  · exact Edition.faults_of_mem_textProblems (by decide) h
  · exact Edition.faults_of_mem_textProblems (by decide) h
  · obtain ⟨⟨hint, i⟩, _, h⟩ := List.mem_flatMap.mp h
    refine Edition.faults_of_mem_textProblems ?_ h
    rw [String.append_assoc]
    exact append_ne_number 'h' (by decide) rfl
  · split at h
    · simp at h
    · split at h
      · simp at h
      · exact List.mem_singleton.mp h ▸ faults_malformed (by decide)
  · exact faults_malformed (by decide)

/-- A refused case has a problem, and all of its problems are about it. -/
theorem faults_of_compile (h : c.compile e = .error problems) :
    problems ≠ [] ∧ ∀ d ∈ problems, d.Faults (.case c.number) := by
  rw [compile] at h
  split at h
  · dsimp only at h
    split at h
    · simp at h
    · obtain rfl := Except.error.inj h
      refine ⟨by simp, fun d hd => ?_⟩
      exact List.mem_singleton.mp hd ▸ faults_malformed (by decide)
  · rename_i hproblems
    obtain rfl := Except.error.inj h
    refine ⟨fun hnil => hproblems hnil, fun d hd => ?_⟩
    rcases List.mem_append.mp hd with hd | hd
    · exact faults_of_mem_outlineProblems hd
    · obtain ⟨⟨q, i⟩, _, hd⟩ := List.mem_flatMap.mp hd
      exact QuestionDraft.faults_of_mem_problems hd

end CaseDraft

end BranchingStory
