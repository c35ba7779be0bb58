import BranchingStory.Files.Path

/-!
# Joined paths

A directory and a path below it are joined without a change of either, so the parts of the
joined path are parts of the directory followed by those of the path (`parts_join`).
-/

namespace BranchingStory.Path

/-! ## Parts -/

theorem splitSlashes_ne_nil (s : List Char) : splitSlashes s ≠ [] := by
  cases s with
  | nil => simp [splitSlashes]
  | cons c s =>
      rw [splitSlashes]
      split
      · simp
      · split <;> simp

theorem splitSlashes_append_slash (s rest : List Char) :
    splitSlashes (s ++ '/' :: rest) = splitSlashes s ++ splitSlashes rest := by
  induction s with
  | nil => simp [splitSlashes]
  | cons c s ih =>
      rw [List.cons_append, splitSlashes, splitSlashes, ih]
      split
      · rfl
      · obtain ⟨part, parts, hparts⟩ := List.exists_cons_of_ne_nil (splitSlashes_ne_nil s)
        rw [hparts]
        rfl

theorem splitSlashes_of_notMem {s : List Char} (h : '/' ∉ s) : splitSlashes s = [s] := by
  induction s with
  | nil => rfl
  | cons c s ih =>
      obtain ⟨hc, hs⟩ : '/' ≠ c ∧ '/' ∉ s := by simpa using h
      rw [splitSlashes, ih hs, if_neg (Ne.symm hc)]

/-- A text is its parts with the slashes put back. -/
theorem intercalate_splitSlashes (s : List Char) :
    List.intercalate ['/'] (splitSlashes s) = s := by
  induction s with
  | nil => rfl
  | cons c s ih =>
      obtain ⟨part, parts, hparts⟩ := List.exists_cons_of_ne_nil (splitSlashes_ne_nil s)
      rw [hparts] at ih
      rw [splitSlashes, hparts]
      split
      · rename_i hc
        rw [← ih, hc]
        rfl
      · rw [← ih]
        cases parts <;> rfl

theorem parts_injective {path path' : String} (h : parts path = parts path') : path = path' := by
  have hlists : splitSlashes path.toList = splitSlashes path'.toList := by
    simpa [parts, Function.comp_def] using congrArg (List.map String.toList) h
  rw [← String.toList_inj, ← intercalate_splitSlashes path.toList, hlists,
    intercalate_splitSlashes]

theorem slash_notMem_splitSlashes {s part : List Char} (h : part ∈ splitSlashes s) :
    '/' ∉ part := by
  induction s generalizing part with
  | nil =>
      obtain rfl : part = [] := by simpa [splitSlashes] using h
      simp
  | cons c s ih =>
      rw [splitSlashes] at h
      split at h
      · rcases List.mem_cons.mp h with rfl | h
        · simp
        · exact ih h
      · rename_i hc
        obtain ⟨first, rest, hparts⟩ := List.exists_cons_of_ne_nil (splitSlashes_ne_nil s)
        simp only [hparts] at h ih
        rcases List.mem_cons.mp h with rfl | h
        · simpa [Ne.symm hc] using ih (.head _)
        · exact ih (.tail _ h)

/-- No part of a path holds a slash. -/
theorem slash_notMem_parts {path part : String} (h : part ∈ parts path) : '/' ∉ part.toList := by
  obtain ⟨s, hs, rfl⟩ := List.mem_map.mp h
  simpa using slash_notMem_splitSlashes hs

/-- The parts of a path of two names. -/
theorem parts_pair {dir name : String} (hdir : '/' ∉ dir.toList) (hname : '/' ∉ name.toList) :
    parts (dir ++ "/" ++ name) = [dir, name] := by
  have hlist : (dir ++ "/" ++ name).toList = dir.toList ++ '/' :: name.toList := by simp
  rw [parts, hlist, splitSlashes_append_slash, splitSlashes_of_notMem hdir,
    splitSlashes_of_notMem hname]
  simp

/-! ## Joining -/

theorem join_of_relative {dir path : String} (h : isAbsolute path = false) :
    join dir path =
      (if dir.toList = [] ∨ dir.toList.getLast? = some '/' then dir else dir ++ "/") ++ path := by
  rw [join, if_neg (by simp [h])]
  split <;> rfl

/-- Different paths are different in one directory. -/
theorem join_inj {dir path path' : String} (h : isAbsolute path = false)
    (h' : isAbsolute path' = false) : join dir path = join dir path' ↔ path = path' := by
  rw [join_of_relative h, join_of_relative h', String.append_right_inj]

theorem isAbsolute_append {s path : String} (hs : s.toList ≠ []) :
    isAbsolute (s ++ path) = isAbsolute s := by
  obtain ⟨c, rest, hcons⟩ := List.exists_cons_of_ne_nil hs
  rw [isAbsolute, isAbsolute, String.toList_append, hcons]
  rfl

theorem isAbsolute_join {dir path : String} (h : isAbsolute path = false) :
    isAbsolute (join dir path) = isAbsolute dir := by
  rw [join_of_relative h]
  by_cases hdir : dir.toList = []
  · obtain rfl : dir = "" := by simpa using hdir
    simpa [isAbsolute] using h
  · split
    · exact isAbsolute_append hdir
    · rw [isAbsolute_append (by simp), isAbsolute_append hdir]

theorem isAbsolute_of_notMem {name : String} (h : '/' ∉ name.toList) : isAbsolute name = false := by
  rw [isAbsolute, beq_eq_false_iff_ne]
  exact fun hhead => h (List.mem_of_head? hhead)

/-- A name in a directory below another directory, as one path from there. -/
theorem join_join {dir below name : String} (hne : below ≠ "") (hbelow : '/' ∉ below.toList)
    (hname : '/' ∉ name.toList) :
    join (join dir below) name = join dir (below ++ "/" ++ name) := by
  have hrelative := isAbsolute_of_notMem hbelow
  have hlong : isAbsolute (below ++ "/" ++ name) = false := by
    rw [String.append_assoc, isAbsolute_append (by simpa using hne), hrelative]
  have hlast : ∀ s : String,
      (s ++ below).toList ≠ [] ∧ (s ++ below).toList.getLast? ≠ some '/' := by
    intro s
    refine ⟨by simp [hne], ?_⟩
    rw [String.toList_append, List.getLast?_append]
    intro h
    rcases Option.or_eq_some_iff.mp h with h | ⟨hnone, _⟩
    · exact hbelow (List.mem_of_getLast? h)
    · simp [hne] at hnone
  rw [join_of_relative (isAbsolute_of_notMem hname), join_of_relative hrelative,
    join_of_relative hlong]
  simp only [hlast, or_self, if_false, String.append_assoc]

/-- The parts of a joined path end with those of the path. -/
theorem parts_join (dir : String) :
    ∃ base, ∀ path, isAbsolute path = false → parts (join dir path) = base ++ parts path := by
  by_cases hdir : dir.toList = []
  · refine ⟨[], fun path h => ?_⟩
    obtain rfl : dir = "" := by simpa using hdir
    simp [join_of_relative h]
  · obtain ⟨s, hs⟩ : ∃ s, (if dir.toList = [] ∨ dir.toList.getLast? = some '/' then dir
        else dir ++ "/").toList = s ++ ['/'] := by
      split
      · rename_i hlast
        exact List.getLast?_eq_some_iff.mp (hlast.resolve_left hdir)
      · exact ⟨dir.toList, by simp⟩
    refine ⟨(splitSlashes s).map String.ofList, fun path h => ?_⟩
    rw [join_of_relative h, parts, String.toList_append, hs, List.append_assoc,
      List.singleton_append, splitSlashes_append_slash, List.map_append, parts]

/-! ## Plain paths -/

/-- Every part of the path is the name of something below the directory where it starts. -/
structure Plain (path : String) : Prop where
  relative : isAbsolute path = false
  names : ∀ part ∈ parts path, staysAt part = false ∧ leadsUp part = false

/-- A name without a slash that is longer than the dots. -/
structure PlainName (name : String) : Prop where
  slash_notMem : '/' ∉ name.toList
  two_lt_length : 2 < name.length

/-- A plain name leads down. -/
theorem PlainName.names {name : String} (h : PlainName name) :
    staysAt name = false ∧ leadsUp name = false := by
  have hlength := h.two_lt_length
  constructor
  · simp only [staysAt, Bool.or_eq_false_iff, beq_eq_false_iff_ne]
    constructor <;> rintro rfl <;> exact absurd hlength (by decide)
  · simp only [leadsUp, beq_eq_false_iff_ne]
    rintro rfl
    exact absurd hlength (by decide)

theorem PlainName.ne_empty {name : String} (h : PlainName name) : name ≠ "" := by
  rintro rfl
  exact absurd h.two_lt_length (by decide)

/-- Two plain names make a plain path. -/
theorem plain_pair {dir name : String} (hdir : PlainName dir) (hname : PlainName name) :
    Plain (dir ++ "/" ++ name) where
  relative := by
    have hchars : dir.toList ≠ [] := by simpa using hdir.ne_empty
    rw [String.append_assoc, isAbsolute_append hchars, isAbsolute_of_notMem hdir.slash_notMem]
  names := by
    rw [parts_pair hdir.slash_notMem hname.slash_notMem]
    exact List.forall_mem_cons.mpr ⟨hdir.names, List.forall_mem_singleton.mpr hname.names⟩

/-! ## Extensions -/

/-- A name with an extension has something before the dot. -/
theorem hasExtension_iff {extension name : String} :
    hasExtension extension name = true ↔ ∃ stem, stem ≠ "" ∧ name = stem ++ "." ++ extension := by
  rw [hasExtension, Bool.and_eq_true, List.isSuffixOf_iff_suffix, decide_eq_true_eq]
  constructor
  · rintro ⟨⟨stem, hstem⟩, hlength⟩
    have hname : name = String.ofList stem ++ "." ++ extension := by
      simp [← String.toList_inj, ← hstem]
    refine ⟨String.ofList stem, ?_, hname⟩
    intro hempty
    rw [hname, hempty, String.length_append, String.length_append, String.length_empty,
      show ".".length = 1 from rfl] at hlength
    omega
  · rintro ⟨stem, hstem, rfl⟩
    have hlength : stem.length ≠ 0 := by simpa using hstem
    refine ⟨⟨stem.toList, by simp⟩, ?_⟩
    rw [String.length_append, String.length_append, show ".".length = 1 from rfl]
    omega

end BranchingStory.Path
