import BranchingStory.Proofs.Enumeration
import BranchingStory.Proofs.Files.Writing

/-!
# Files of a directory

A directory lists the names of what stands right inside it, in order (`FileTree.enumerates_names`).
No name holds a slash (`FileTree.WellNamed`): that is true of every tree made of entries at their
paths (`FileTree.wellNamed_ofEntriesAt`).

To replace a file is to put another one where its path leads.  It changes neither where paths lead
nor what a directory lists, and it changes what is read under those paths only that lead to the
file (`FileTree.read_replace_of_ne`).
-/

namespace BranchingStory.FileTree

variable {t t' : FileTree} {place other : Place} {entry : FileEntry}
  {path dir name content : String}

/-! ## Listing -/

/-- Something of the name stands right inside the directory at a path. -/
def Holds (t : FileTree) (dir name : String) : Prop :=
  ∃ place, t.locate? dir = some place ∧ t.entryAt? place = some .directory ∧
    t.entryAt? (place ++ [name]) ≠ none

theorem isDirectory_iff :
    t.isDirectory path = true ↔
      ∃ place, t.locate? path = some place ∧ t.entryAt? place = some .directory := by
  rw [isDirectory, beq_iff_eq, standing?, Option.bind_eq_some_iff]

theorem nameBelow?_eq_some_iff : nameBelow? place other = some name ↔ other = place ++ [name] := by
  cases other with
  | nil => simp [nameBelow?]
  | cons first rest =>
      rw [nameBelow?]
      constructor
      · intro h
        split at h
        · obtain ⟨init, hinit⟩ := List.getLast?_eq_some_iff.mp h
          rw [← ‹_ = place›, hinit, List.dropLast_concat]
        · cases h
      · intro h
        rw [h, List.dropLast_concat, if_pos rfl, List.getLast?_concat]

/-- The places right below one place are in the order of their names. -/
theorem lt_of_compare_concat {a b : String}
    (h : compare (place ++ [a]) (place ++ [b]) = .lt) : a < b := by
  rw [List.compare_eq_compareLex] at h
  induction place with
  | nil =>
      rw [List.nil_append, List.nil_append, List.compareLex_cons_cons, List.compareLex_nil_nil,
        Ordering.then_eq] at h
      exact compare_lt_iff_lt.mp h
  | cons first rest ih =>
      have hfirst : compare first first = .eq := Std.ReflCmp.compare_self
      rw [List.cons_append, List.cons_append, List.compareLex_cons_cons, hfirst] at h
      exact ih h

theorem entryAt?_concat_ne_none_iff :
    t.entryAt? (place ++ [name]) ≠ none ↔ place ++ [name] ∈ t.entries := by
  have hentry : t.entryAt? (place ++ [name]) = t.entries[place ++ [name]]? := by
    cases place <;> rfl
  rw [hentry, Std.ExtTreeMap.mem_iff_isSome_getElem?, Option.isSome_iff_ne_none]

/-- A directory lists exactly the names of what stands right inside it, in order. -/
theorem enumerates_names (h : t.isDirectory dir = true) :
    Enumerates (t.names dir) (t.Holds dir) := by
  obtain ⟨place, hlocate, hdirectory⟩ := isDirectory_iff.mp h
  simp only [names, hlocate]
  constructor
  · rw [List.pairwise_filterMap]
    refine t.entries.ordered_keys.imp fun hlt a ha b hb => ?_
    rw [nameBelow?_eq_some_iff.mp ha, nameBelow?_eq_some_iff.mp hb] at hlt
    exact lt_of_compare_concat hlt
  · intro name
    simp only [List.mem_filterMap, nameBelow?_eq_some_iff, exists_eq_right,
      Std.ExtTreeMap.mem_keys, ← entryAt?_concat_ne_none_iff]
    constructor
    · exact fun hentry => ⟨place, hlocate, hdirectory, hentry⟩
    · rintro ⟨place', hplace', _, hentry⟩
      obtain rfl := Option.some.inj (hlocate.symm.trans hplace')
      exact hentry

/-! ## Names without slashes -/

/-- No name that leads to the place holds a slash. -/
def Unslashed (place : Place) : Prop := ∀ name ∈ place, '/' ∉ name.toList

theorem unslashed_parts (path : String) : Unslashed (Path.parts path) :=
  fun _ => Path.slash_notMem_parts

theorem Unslashed.concat (h : Unslashed place) (hname : '/' ∉ name.toList) :
    Unslashed (place ++ [name]) :=
  List.forall_mem_append.mpr ⟨h, List.forall_mem_singleton.mpr hname⟩

theorem Unslashed.dropLast (h : Unslashed place) : Unslashed place.dropLast :=
  fun _ hname => h _ (List.dropLast_subset _ hname)

/-- No name in the tree holds a slash. -/
structure WellNamed (t : FileTree) : Prop where
  start : Unslashed t.start
  places : ∀ place, t.entryAt? place ≠ none → Unslashed place

theorem Holds.slash_notMem (ht : t.WellNamed) (h : t.Holds dir name) : '/' ∉ name.toList := by
  obtain ⟨place, _, _, hentry⟩ := h
  exact ht.places _ hentry name (by simp)

theorem wellNamed_empty : WellNamed {} where
  start := by simp [Unslashed]
  places place hentry := by
    cases place with
    | nil => simp [Unslashed]
    | cons name names => simp [entryAt?] at hentry

theorem WellNamed.put (ht : t.WellNamed) (hplace : Unslashed place) (entry : FileEntry) :
    (t.put place entry).WellNamed where
  start := ht.start
  places other hother := by
    rw [entryAt?_put] at hother
    split at hother
    · rename_i h
      exact h.1 ▸ hplace
    · exact ht.places other hother

theorem WellNamed.makeDirectories {parts : List String} (ht : t.WellNamed)
    (hplace : Unslashed place) (hparts : Unslashed parts) :
    (t.makeDirectories place parts).1.WellNamed := by
  induction parts generalizing t place with
  | nil => exact ht
  | cons part rest ih =>
      obtain ⟨hpart, hrest⟩ := List.forall_mem_cons.mp hparts
      rw [FileTree.makeDirectories]
      split
      · exact ht
      · split
        · exact ih ht hplace hrest
        · split
          · exact ih ht hplace.dropLast hrest
          · split
            · split
              · exact ih (ht.put (hplace.concat hpart) .directory) (hplace.concat hpart) hrest
              · exact ht
            · exact ih ht (hplace.concat hpart) hrest
            · exact ht

theorem WellNamed.origin (ht : t.WellNamed) (path : String) : Unslashed (t.origin path) := by
  rw [FileTree.origin]
  split
  · simp [Unslashed]
  · exact ht.start

theorem WellNamed.makeDirectory (ht : t.WellNamed) (path : String) :
    (t.makeDirectory path).1.WellNamed := by
  rw [FileTree.makeDirectory]
  split
  · exact ht
  · split
    · exact ht.makeDirectories (ht.origin path) (unslashed_parts path)
    · exact ht

/-- Where a path leads no name holds a slash. -/
theorem unslashed_of_follow {parts : List String} {found : Place} (hplace : Unslashed place)
    (hparts : Unslashed parts) (h : t.follow place parts = some found) : Unslashed found := by
  induction parts generalizing place with
  | nil => exact Option.some.inj h ▸ hplace
  | cons part rest ih =>
      obtain ⟨hpart, hrest⟩ := List.forall_mem_cons.mp hparts
      rw [follow_cons (entryAt?_of_follow_cons h)] at h
      split at h
      · exact ih hplace hrest h
      · split at h
        · exact ih hplace.dropLast hrest h
        · exact ih (hplace.concat hpart) hrest h

theorem WellNamed.putFile? {file : FileEntry} (ht : t.WellNamed)
    (h : t.putFile? path file = some t') : t'.WellNamed := by
  rw [FileTree.putFile?] at h
  split at h
  · rename_i name _ hlast
    split at h
    · cases h
    · obtain ⟨above, hfollow, h⟩ := Option.bind_eq_some_iff.mp h
      have habove := unslashed_of_follow (ht.origin path) (unslashed_parts path).dropLast hfollow
      have hname := unslashed_parts path name (List.mem_of_getLast? hlast)
      split at h
      · cases h
      · split at h
        · cases h
        · obtain rfl := Option.some.inj h
          exact ht.put (habove.concat hname) file
  · cases h

theorem WellNamed.save (ht : t.WellNamed) (path : String) (file : FileEntry) :
    (t.save path file).1.WellNamed := by
  have hmade := ht.makeDirectory (Path.parent path)
  rw [FileTree.save]
  split
  · rename_i heq
    rwa [heq] at hmade
  · rename_i heq
    rw [heq] at hmade
    split
    · exact hmade
    · exact hmade.putFile? ‹_›

theorem WellNamed.add (ht : t.WellNamed) (path : String) (entry : FileEntry) :
    (t.add path entry).1.WellNamed := by
  cases entry with
  | directory => exact ht.makeDirectory path
  | text content => exact ht.save path _
  | binary => exact ht.save path _

/-- Whatever is put at some paths, no name in the tree holds a slash. -/
theorem wellNamed_ofEntriesAt {start : Place} (hstart : Unslashed start)
    (entries : List (String × FileEntry)) : (ofEntriesAt start entries).WellNamed := by
  have hfold : ∀ t : FileTree, t.WellNamed →
      (entries.foldl (fun t entry => (t.add entry.1 entry.2).1) t).WellNamed := by
    induction entries with
    | nil => exact fun t ht => ht
    | cons first rest ih => exact fun t ht => ih _ (ht.add first.1 first.2)
  have htop : Unslashed [] := by simp [Unslashed]
  have hmade := wellNamed_empty.makeDirectories htop hstart
  exact hfold _ ⟨hstart, hmade.places⟩

/-- Files of plain names, each in a directory of a plain name, are different files if their names or
those of the directories differ. -/
theorem ne_of_locate?_join_join {dir below below' name name' : String}
    (hbelow : Path.PlainName below) (hname : Path.PlainName name)
    (hbelow' : Path.PlainName below') (hname' : Path.PlainName name')
    (hne : below' ≠ below ∨ name' ≠ name)
    (h : t.locate? (Path.join (Path.join dir below) name) = some place) :
    t.locate? (Path.join (Path.join dir below') name') ≠ some place := by
  rw [Path.join_join hbelow.ne_empty hbelow.slash_notMem hname.slash_notMem] at h
  rw [Path.join_join hbelow'.ne_empty hbelow'.slash_notMem hname'.slash_notMem]
  intro h'
  have hpaths := congrArg Path.parts
    (eq_of_locate?_join (Path.plain_pair hbelow hname) (Path.plain_pair hbelow' hname') h h')
  rw [Path.parts_pair hbelow.slash_notMem hname.slash_notMem,
    Path.parts_pair hbelow'.slash_notMem hname'.slash_notMem] at hpaths
  simp only [List.cons.injEq, and_true] at hpaths
  exact hne.elim (· hpaths.1.symm) (· hpaths.2.symm)

/-! ## Replacing a file -/

/-- The tree with another entry where a path leads. -/
def replace (t : FileTree) (path : String) (entry : FileEntry) : FileTree :=
  match t.locate? path with
  | some place => t.put place entry
  | none => t

/-- A file is replaced by another. -/
theorem entryAt?_replace (hlocate : t.locate? path = some place)
    (hentry : t.entryAt? place = some (.text content)) (other : Place) :
    (t.replace path entry).entryAt? other =
      if other = place then some entry else t.entryAt? other := by
  have hne : place ≠ [] := by
    rintro rfl
    simp [entryAt?] at hentry
  simp only [replace, hlocate, entryAt?_put]
  by_cases hother : other = place
  · subst hother
    simp [hne]
  · simp [hother, Ne.symm hother]

section

variable (hread : t.read path = .ok content) (hfile : entry ≠ .directory)
include hread hfile

/-- No directory is made or lost. -/
theorem entryAt?_replace_eq_directory_iff (place : Place) :
    (t.replace path entry).entryAt? place = some .directory ↔
      t.entryAt? place = some .directory := by
  obtain ⟨replaced, hlocate, hentry⟩ := read_eq_ok_iff.mp hread
  rw [entryAt?_replace hlocate hentry]
  split
  · rename_i heq
    simp [heq, hentry, hfile]
  · rfl

/-- Paths lead where they led before. -/
theorem locate?_replace (other : String) :
    (t.replace path entry).locate? other = t.locate? other := by
  obtain ⟨replaced, hlocate, _⟩ := read_eq_ok_iff.mp hread
  have hstart : (t.replace path entry).start = t.start := by
    rw [replace, hlocate]
    rfl
  have hsame := entryAt?_replace_eq_directory_iff hread hfile
  refine Option.ext fun place => ⟨?_, ?_⟩
  · exact locate?_of_grows ⟨hstart.symm, fun place => (hsame place).mp⟩
  · exact locate?_of_grows ⟨hstart, fun place => (hsame place).mpr⟩

theorem isDirectory_replace (other : String) :
    (t.replace path entry).isDirectory other = t.isDirectory other := by
  rw [Bool.eq_iff_iff, isDirectory_iff, isDirectory_iff, locate?_replace hread hfile]
  exact exists_congr fun place => and_congr_right fun _ =>
    entryAt?_replace_eq_directory_iff hread hfile place

theorem holds_replace_iff :
    (t.replace path entry).Holds dir name ↔ t.Holds dir name := by
  obtain ⟨replaced, hlocate, hentry⟩ := read_eq_ok_iff.mp hread
  have hsome : ∀ place, (t.replace path entry).entryAt? place ≠ none ↔
      t.entryAt? place ≠ none := by
    intro place
    rw [entryAt?_replace hlocate hentry]
    split
    · rename_i heq
      simp [heq, hentry]
    · rfl
  simp only [Holds, locate?_replace hread hfile, entryAt?_replace_eq_directory_iff hread hfile,
    hsome]

/-- A directory lists the same names as before. -/
theorem names_replace (h : t.isDirectory dir = true) :
    (t.replace path entry).names dir = t.names dir := by
  have h' : (t.replace path entry).isDirectory dir = true := by
    rw [isDirectory_replace hread hfile, h]
  exact (enumerates_names h').unique
    ((enumerates_names h).congr fun _ => (holds_replace_iff hread hfile).symm)

/-- Under the path stands the new file. -/
theorem standing?_replace_self : (t.replace path entry).standing? path = some entry := by
  obtain ⟨replaced, hlocate, hentry⟩ := read_eq_ok_iff.mp hread
  rw [standing?, locate?_replace hread hfile, hlocate, Option.bind_some,
    entryAt?_replace hlocate hentry, if_pos rfl]

/-- Under paths that do not lead to the file nothing else is read than before. -/
theorem read_replace_of_ne {other : String} (hother : t.locate? other ≠ t.locate? path) :
    (t.replace path entry).read other = t.read other := by
  obtain ⟨replaced, hlocate, hentry⟩ := read_eq_ok_iff.mp hread
  have hstanding : (t.replace path entry).standing? other = t.standing? other := by
    rw [standing?, standing?, locate?_replace hread hfile]
    refine Option.bind_congr fun place hplace => ?_
    have hne : place ≠ replaced := by
      rintro rfl
      exact hother (hplace.trans hlocate.symm)
    rw [entryAt?_replace hlocate hentry, if_neg hne]
  rw [read, read, hstanding]

end

end BranchingStory.FileTree
