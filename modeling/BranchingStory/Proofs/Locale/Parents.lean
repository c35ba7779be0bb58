import Mathlib.Logic.Relation
import BranchingStory.Locale.Registry
import BranchingStory.Proofs.Lookup
import BranchingStory.Proofs.Loop

/-!
# The parents of a language

A registry climbs from each language to its parent, to the parent of that, and so on.  The climb
ends for every table of languages (`Registry.exists_endsIn_climbStep`), since it never passes a
language twice.  A climb that succeeds has passed the *lineage* of the language, which goes up to
a language without a parent (`Registry.lineage_of_climb`).  A climb fails only where the parents
lead to a code that is not registered, or into a circle (`Registry.fault_of_climb`).  A language
with a lineage leads into no circle (`Lineage.not_endless`), so each failure is genuine.
-/

namespace BranchingStory

open Relation (ReflTransGen TransGen)

variable {languages : List Language} {l last last' : Language} {passed passed' : List String}
  {code parent : String}

/-! ## Falling back -/

/-- A language of the one code has the other code as its parent. -/
def FallsBack (languages : List Language) (code parent : String) : Prop :=
  ∃ l ∈ languages, l.code = code ∧ l.parent = some parent

/-- The parents of a language lead into a circle. -/
def Endless (languages : List Language) (code : String) : Prop :=
  ∃ c, ReflTransGen (FallsBack languages) code c ∧ TransGen (FallsBack languages) c c

theorem FallsBack.mem (h : FallsBack languages code parent) :
    code ∈ languages.map Language.code := by
  obtain ⟨l, hl, rfl, _⟩ := h
  exact List.mem_map_of_mem hl

/-- Languages with distinct codes have one parent each. -/
theorem FallsBack.parent_eq (hcodes : (languages.map Language.code).Nodup) (hl : l ∈ languages)
    (h : FallsBack languages l.code parent) : l.parent = some parent := by
  obtain ⟨l', hl', hcode, hparent⟩ := h
  obtain rfl := List.inj_on_of_nodup_map hcodes hl' hl hcode
  exact hparent

/-- A language on a circle leads into it. -/
theorem Endless.of_circle (h : TransGen (FallsBack languages) code code) :
    Endless languages code :=
  ⟨code, .refl, h⟩

/-- A language that leads into a circle has a parent that does, too. -/
theorem Endless.exists_parent (h : Endless languages code) :
    ∃ parent, FallsBack languages code parent ∧ Endless languages parent := by
  obtain ⟨c, hpath, hcircle⟩ := h
  cases hpath using ReflTransGen.head_induction_on with
  | refl =>
      obtain ⟨parent, hfalls, hback⟩ := TransGen.head'_iff.mp hcircle
      exact ⟨parent, hfalls, _, hback, hcircle⟩
  | head hfalls hpath => exact ⟨_, hfalls, c, hpath, hcircle⟩

/-! ## Lineages -/

/-- The codes of a language, its parent, the parent of that, and so on.  The language `last` has
no parent. -/
inductive Lineage (languages : List Language) : Language → List String → Language → Prop where
  | top {l : Language} : l.parent = none → Lineage languages l [l.code] l
  | child {l next last : Language} {passed : List String} : l.parent = some next.code →
      next ∈ languages → Lineage languages next passed last →
      Lineage languages l (l.code :: passed) last

namespace Lineage

/-- A language has one lineage. -/
theorem unique (hcodes : (languages.map Language.code).Nodup)
    (h : Lineage languages l passed last) (h' : Lineage languages l passed' last') :
    passed = passed' ∧ last = last' := by
  induction h generalizing passed' with
  | top hnone =>
      cases h' with
      | top => exact ⟨rfl, rfl⟩
      | child hparent => rw [hnone] at hparent; cases hparent
  | child hparent hnext _ ih =>
      cases h' with
      | top hnone => rw [hnone] at hparent; cases hparent
      | child hparent' hnext' h' =>
          have hcode := Option.some.inj (hparent.symm.trans hparent')
          obtain rfl := List.inj_on_of_nodup_map hcodes hnext hnext' hcode
          obtain ⟨rfl, rfl⟩ := ih h'
          exact ⟨rfl, rfl⟩

theorem getLast?_eq (h : Lineage languages l passed last) :
    passed.getLast? = some last.code := by
  induction h with
  | top => rfl
  | child _ _ _ ih => rw [List.getLast?_cons, ih]; rfl

/-- A lineage ends at a registered language without a parent. -/
theorem last_mem (hl : l ∈ languages) (h : Lineage languages l passed last) :
    last ∈ languages ∧ last.parent = none := by
  induction h with
  | top hnone => exact ⟨hl, hnone⟩
  | child _ hnext _ ih => exact ih hnext

/-- All languages of a lineage but the last fall back. -/
theorem eq_last_or_fallsBack (hl : l ∈ languages) (h : Lineage languages l passed last)
    (hcode : code ∈ passed) : code = last.code ∨ ∃ parent, FallsBack languages code parent := by
  induction h with
  | top => exact .inl (List.mem_singleton.mp hcode)
  | child hparent hnext _ ih =>
      cases hcode with
      | head => exact .inr ⟨_, _, hl, rfl, hparent⟩
      | tail _ hcode => exact ih hnext hcode

/-- A lineage leads to registered languages only. -/
theorem mem_codes (hl : l ∈ languages) (h : Lineage languages l passed last)
    (hcode : code ∈ passed) : code ∈ languages.map Language.code := by
  rcases h.eq_last_or_fallsBack hl hcode with rfl | ⟨parent, hfalls⟩
  · exact List.mem_map_of_mem (h.last_mem hl).1
  · exact hfalls.mem

/-- A language with a lineage does not lead into a circle. -/
theorem not_endless (hcodes : (languages.map Language.code).Nodup) (hl : l ∈ languages)
    (h : Lineage languages l passed last) : ¬ Endless languages l.code := by
  induction h with
  | top hnone =>
      intro hendless
      obtain ⟨parent, hfalls, _⟩ := hendless.exists_parent
      rw [hfalls.parent_eq hcodes hl] at hnone
      cases hnone
  | child hparent hnext _ ih =>
      intro hendless
      obtain ⟨parent, hfalls, hendless⟩ := hendless.exists_parent
      obtain rfl := Option.some.inj (hparent.symm.trans (hfalls.parent_eq hcodes hl))
      exact ih hnext hendless

end Lineage

/-! ## Tables -/

namespace Registry

/-- The table of some languages with distinct codes has each of them by its code. -/
theorem getElem?_tableOf (h : (languages.map Language.code).Nodup) :
    (tableOf languages)[code]? = some l ↔ l ∈ languages ∧ l.code = code := by
  have hcodes : (languages.map fun l => (l.code, l)).map Prod.fst = languages.map Language.code :=
    List.map_map
  rw [tableOf, getElem?_ofList_eq_some_iff (hcodes ▸ h), List.mem_map]
  constructor
  · rintro ⟨l, hl, heq⟩
    obtain ⟨rfl, rfl⟩ := Prod.mk.inj heq
    exact ⟨hl, rfl⟩
  · rintro ⟨hl, rfl⟩
    exact ⟨l, hl, rfl⟩

theorem getElem?_tableOf_eq_none_iff (h : (languages.map Language.code).Nodup) :
    (tableOf languages)[code]? = none ↔ code ∉ languages.map Language.code := by
  simp only [Option.eq_none_iff_forall_not_mem, Option.mem_def, getElem?_tableOf h, List.mem_map,
    not_exists]

theorem mem_values_tableOf (h : (languages.map Language.code).Nodup) :
    l ∈ (tableOf languages).values ↔ l ∈ languages := by
  simp only [mem_values_iff, getElem?_tableOf h, exists_and_left, exists_eq', and_true]

/-- The table lists its languages in the order of their codes. -/
theorem map_code_values_tableOf (h : (languages.map Language.code).Nodup) :
    (tableOf languages).values.map Language.code = (tableOf languages).keys := by
  rw [values_eq_map_snd_toList, List.map_map, ← Std.ExtTreeMap.map_fst_toList_eq_keys]
  refine List.map_congr_left fun ⟨code, l⟩ hmem => ?_
  exact ((getElem?_tableOf h).mp (Std.ExtTreeMap.mem_toList_iff_getElem?_eq_some.mp hmem)).2

/-! ## Climbs that end -/

/-- Passing one more of some codes leaves fewer of them. -/
theorem length_filter_notMem_concat_lt {codes passed : List String} (hcode : code ∈ codes)
    (hpassed : code ∉ passed) :
    (codes.filter (· ∉ passed ++ [code])).length < (codes.filter (· ∉ passed)).length := by
  have hfilter : codes.filter (· ∉ passed ++ [code]) =
      (codes.filter (· ∉ passed)).filter (· ≠ code) := by
    rw [List.filter_filter]
    refine List.filter_congr fun c _ => ?_
    simp [not_or, and_comm]
  rw [hfilter]
  exact List.length_filter_lt_length_iff_exists.mpr
    ⟨code, by simp [hcode, hpassed], by simp⟩

/-- How many steps are left to a climb at most: one for each code that it has not passed, and one
to fail. -/
def steps (table : LanguageTable) : Except RegistryError Climb → Nat
  | .error _ => 0
  | .ok climb => (table.keys.filter (· ∉ climb.passed)).length + 1

theorem steps_lt_of_climbStep {table : LanguageTable} {start : String}
    {s t : Except RegistryError Climb} (h : climbStep table start s = some t) :
    steps table t < steps table s := by
  cases s with
  | error e => cases h
  | ok climb =>
      obtain ⟨parent, _, rfl⟩ := Option.map_eq_some_iff.mp h
      cases hnext : table[parent]? with
      | none => exact Nat.succ_pos _
      | some next =>
          dsimp only
          split
          · exact Nat.succ_pos _
          · rename_i hpassed
            have hkey : parent ∈ table.keys := by
              rw [Std.ExtTreeMap.mem_keys, Std.ExtTreeMap.mem_iff_isSome_getElem?, hnext]
              rfl
            exact Nat.succ_lt_succ (length_filter_notMem_concat_lt hkey hpassed)

/-- A climb ends, whatever languages there are and wherever it stands. -/
theorem exists_endsIn_climbStep (table : LanguageTable) (start : String)
    (s : Except RegistryError Climb) : ∃ t, Loop.EndsIn (climbStep table start) s t :=
  Loop.exists_endsIn wellFounded_lt (steps table) (fun _ _ => steps_lt_of_climbStep) s

/-- The outcome of a climb is the state it ends in. -/
theorem endsIn_climb (table : LanguageTable) (l : Language) :
    Loop.EndsIn (climbStep table l.code) (.ok ⟨l, [l.code]⟩) (climb table l) := by
  obtain ⟨t, hend⟩ := exists_endsIn_climbStep table l.code (.ok ⟨l, [l.code]⟩)
  rw [climb, Loop.run_eq_some_iff.mpr hend]
  exact hend

/-! ## What climbs find -/

/-- A climb from `l` that has gone well so far. -/
structure Sound (languages : List Language) (l : Language) (climb : Climb) : Prop where
  mem : climb.current ∈ languages
  current_mem : climb.current.code ∈ climb.passed
  nodup : climb.passed.Nodup
  /-- The languages it has passed lie between the first and the current one. -/
  between : ∀ code ∈ climb.passed, ReflTransGen (FallsBack languages) l.code code ∧
    ReflTransGen (FallsBack languages) code climb.current.code
  /-- What it has passed goes before the lineage of the current language. -/
  lineage : ∀ {rest last}, Lineage languages climb.current (climb.current.code :: rest) last →
    Lineage languages l (climb.passed ++ rest) last

/-- Why a climb from `start` fails. -/
inductive Fault (languages : List Language) (start : String) : RegistryError → Prop where
  | unknown {code parent : String} : ReflTransGen (FallsBack languages) start code →
      FallsBack languages code parent → parent ∉ languages.map Language.code →
      Fault languages start (.unknownParent code parent)
  | circle : Endless languages start → Fault languages start (.fallbackCycle start)

/-- A climb from `l` has gone well or fails for a reason. -/
def Accounted (languages : List Language) (l : Language) : Except RegistryError Climb → Prop
  | .ok climb => Sound languages l climb
  | .error e => Fault languages l.code e

theorem sound_start (hl : l ∈ languages) : Sound languages l ⟨l, [l.code]⟩ where
  mem := hl
  current_mem := .head _
  nodup := List.nodup_singleton _
  between code hcode := by
    obtain rfl := List.mem_singleton.mp hcode
    exact ⟨.refl, .refl⟩
  lineage h := h

/-- A climb goes well if it passes on to a parent that it has not passed yet. -/
theorem Sound.concat {climb : Climb} {next : Language} (h : Sound languages l climb)
    (hparent : climb.current.parent = some next.code) (hnext : next ∈ languages)
    (hpassed : next.code ∉ climb.passed) :
    Sound languages l ⟨next, climb.passed ++ [next.code]⟩ where
  mem := hnext
  current_mem := by simp
  nodup := by
    rw [← List.concat_eq_append]
    exact h.nodup.concat hpassed
  between code hcode := by
    have hfalls : FallsBack languages climb.current.code next.code := ⟨_, h.mem, rfl, hparent⟩
    rcases List.mem_append.mp hcode with hcode | hcode
    · exact ⟨(h.between code hcode).1, (h.between code hcode).2.tail hfalls⟩
    · obtain rfl := List.mem_singleton.mp hcode
      exact ⟨(h.between _ h.current_mem).1.tail hfalls, .refl⟩
  lineage hlineage := by
    rw [List.append_assoc]
    exact h.lineage (.child hparent hnext hlineage)

/-- Every step keeps the account of a climb. -/
theorem accounted_of_climbStep (hcodes : (languages.map Language.code).Nodup)
    {s t : Except RegistryError Climb} (hs : Accounted languages l s)
    (h : climbStep (tableOf languages) l.code s = some t) : Accounted languages l t := by
  cases s with
  | error e => cases h
  | ok climb =>
      have hsound : Sound languages l climb := hs
      obtain ⟨parent, hparent, rfl⟩ := Option.map_eq_some_iff.mp h
      have hfalls : FallsBack languages climb.current.code parent := ⟨_, hsound.mem, rfl, hparent⟩
      cases hnext : (tableOf languages)[parent]? with
      | none =>
          exact Fault.unknown (hsound.between _ hsound.current_mem).1 hfalls
            ((getElem?_tableOf_eq_none_iff hcodes).mp hnext)
      | some next =>
          obtain ⟨hmem, rfl⟩ := (getElem?_tableOf hcodes).mp hnext
          dsimp only
          split
          · rename_i hpassed
            -- The parent leads on to the current language, which falls back to it.
            obtain ⟨hto, hfrom⟩ := hsound.between _ hpassed
            exact Fault.circle ⟨_, hto, TransGen.tail' hfrom hfalls⟩
          · rename_i hpassed
            exact hsound.concat hparent hmem hpassed

theorem accounted_climb (hcodes : (languages.map Language.code).Nodup) (hl : l ∈ languages) :
    Accounted languages l (climb (tableOf languages) l) :=
  (endsIn_climb (tableOf languages) l).runs.preserves
    (fun _ _ => accounted_of_climbStep hcodes) (sound_start hl)

/-- A climb that succeeds has passed the lineage of the language. -/
theorem lineage_of_climb (hcodes : (languages.map Language.code).Nodup) (hl : l ∈ languages)
    {c : Climb} (h : climb (tableOf languages) l = .ok c) :
    Lineage languages l c.passed c.current ∧ c.passed.Nodup := by
  have hsound : Accounted languages l (.ok c) := h ▸ accounted_climb hcodes hl
  have hnone : c.current.parent = none := by
    have hlast := (endsIn_climb (tableOf languages) l).last
    rw [h] at hlast
    exact Option.map_eq_none_iff.mp hlast
  have hlineage := hsound.lineage (.top hnone)
  rw [List.append_nil] at hlineage
  exact ⟨hlineage, hsound.nodup⟩

theorem fault_of_climb (hcodes : (languages.map Language.code).Nodup) (hl : l ∈ languages)
    {e : RegistryError} (h : climb (tableOf languages) l = .error e) :
    Fault languages l.code e := by
  have haccounted : Accounted languages l (.error e) := h ▸ accounted_climb hcodes hl
  exact haccounted

end Registry

end BranchingStory
