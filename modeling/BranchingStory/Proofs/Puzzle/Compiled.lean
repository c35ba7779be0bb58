import Mathlib.Data.List.Basic
import BranchingStory.Compile.Case

/-!
# Compiled cases

What it takes for a draft of a case to compile, and what the case then looks like.
`CaseDraft.compile_eq_ok_iff` opens the compiler once: a draft compiles exactly if nothing is
wrong with its outline or any question and no name repeats.  A compiled case has a question,
and the names of its questions are distinct.
-/

namespace BranchingStory

namespace CaseDraft

variable {e : Edition} {d : CaseDraft} {c : Case}

/-- A draft compiles exactly if it has no problem and no repeated name, and then to what it
describes. -/
theorem compile_eq_ok_iff :
    d.compile e = .ok c ↔ d.problems e = [] ∧ d.assemble.ids.Nodup ∧ c = d.assemble := by
  have hids : d.assemble.repeatedName? = none ↔ d.assemble.ids.Nodup := by
    rw [Case.repeatedName?, Option.map_eq_none_iff, firstRepeat?_eq_none_iff]
  rw [compile]
  cases hproblems : d.problems e with
  | cons p rest => simp
  | nil =>
      dsimp only
      cases hrepeat : d.assemble.repeatedName? with
      | none =>
          constructor
          · intro h
            exact ⟨rfl, hids.mp hrepeat, (Except.ok.inj h).symm⟩
          · rintro ⟨_, _, rfl⟩
            rfl
      | some name =>
          refine iff_of_false (by simp) ?_
          rintro ⟨_, hnodup, _⟩
          rw [hids.mpr hnodup] at hrepeat
          simp at hrepeat

theorem number_of_compile (h : d.compile e = .ok c) : c.number = d.number := by
  obtain ⟨_, _, rfl⟩ := compile_eq_ok_iff.mp h
  rfl

theorem nodup_ids_of_compile (h : d.compile e = .ok c) : c.ids.Nodup := by
  obtain ⟨_, hids, rfl⟩ := compile_eq_ok_iff.mp h
  exact hids

/-- A question without problems is part of the case. -/
theorem exists_question_of_problems_eq_nil {q : QuestionDraft} {case position : Nat}
    (h : q.problems e case position = []) : ∃ question, q.question? position = some question := by
  have hanswer := (List.append_eq_nil_iff.mp h).2
  cases hname : q.answer with
  | none => simp [hname] at hanswer
  | some name =>
      have hknown : Reply.ofName? name ≠ none := by simpa [hname] using hanswer
      obtain ⟨reply, hreply⟩ := Option.ne_none_iff_exists'.mp hknown
      simp [QuestionDraft.question?, QuestionDraft.answer?, hname, hreply]

/-- A compiled case has a question. -/
theorem questions_ne_nil_of_compile (h : d.compile e = .ok c) : c.questions ≠ [] := by
  obtain ⟨hproblems, _, rfl⟩ := compile_eq_ok_iff.mp h
  obtain ⟨houtline, hquestions⟩ := List.append_eq_nil_iff.mp hproblems
  have hsome : d.questions ≠ [] := by
    simpa using (List.append_eq_nil_iff.mp houtline).2
  obtain ⟨q, rest, hcons⟩ := List.exists_cons_of_ne_nil hsome
  have hmem : (q, 0) ∈ d.questions.zipIdx := by simp [hcons]
  obtain ⟨question, hquestion⟩ :=
    exists_question_of_problems_eq_nil (List.flatMap_eq_nil_iff.mp hquestions _ hmem)
  exact List.ne_nil_of_mem (List.mem_filterMap.mpr ⟨_, hmem, hquestion⟩)

end CaseDraft

end BranchingStory
