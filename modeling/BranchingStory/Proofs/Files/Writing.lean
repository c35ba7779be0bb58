import BranchingStory.Files.Tree
import BranchingStory.Proofs.Files.Paths

/-!
# Writing files

Writing a file puts it where its path leads, and changes nothing that stands elsewhere
(`FileTree.write_spec`).  No directory is lost on the way, so a path keeps leading where it led
before (`FileTree.locate?_of_grows`).  So of several files that are written into one directory
each can be read afterwards, if their paths differ and do not lead out of the directory
(`FileTree.read_of_writeAll_join`).  The directory may be anywhere.
-/

namespace BranchingStory.FileTree

variable {t t' : FileTree} {place found : Place}

/-! ## Growing trees -/

/-- The tools start where they started, and every directory is still one. -/
structure Grows (t t' : FileTree) : Prop where
  start_eq : t'.start = t.start
  isDirectory : ∀ place, t.entryAt? place = some .directory → t'.entryAt? place = some .directory

theorem Grows.refl (t : FileTree) : Grows t t := ⟨rfl, fun _ h => h⟩

theorem Grows.trans {t'' : FileTree} (h : Grows t t') (h' : Grows t' t'') : Grows t t'' :=
  ⟨h'.start_eq.trans h.start_eq, fun place hplace => h'.isDirectory _ (h.isDirectory place hplace)⟩

theorem follow_cons (h : t.entryAt? place = some .directory) (part : String)
    (rest : List String) :
    t.follow place (part :: rest) =
      if Path.staysAt part then t.follow place rest
      else if Path.leadsUp part then t.follow place.dropLast rest
      else t.follow (place ++ [part]) rest := by
  rw [follow, if_neg (by simp [h])]

theorem entryAt?_of_follow_cons {part : String} {rest : List String}
    (h : t.follow place (part :: rest) = some found) : t.entryAt? place = some .directory := by
  rw [follow] at h
  split at h
  · cases h
  · exact Decidable.not_not.mp ‹_›

/-- What leads somewhere leads there in a grown tree. -/
theorem follow_of_grows (h : Grows t t') {parts : List String}
    (hfollow : t.follow place parts = some found) : t'.follow place parts = some found := by
  induction parts generalizing place with
  | nil => exact hfollow
  | cons part rest ih =>
      have hdirectory := entryAt?_of_follow_cons hfollow
      rw [follow_cons hdirectory] at hfollow
      rw [follow_cons (h.isDirectory _ hdirectory)]
      split at hfollow
      · rw [if_pos ‹_›]
        exact ih hfollow
      · rw [if_neg ‹_›]
        split at hfollow
        · rw [if_pos ‹_›]
          exact ih hfollow
        · rw [if_neg ‹_›]
          exact ih hfollow

theorem origin_of_grows (h : Grows t t') (path : String) : t'.origin path = t.origin path := by
  rw [origin, origin, h.start_eq]

theorem locate?_of_grows (h : Grows t t') {path : String} (hlocate : t.locate? path = some found) :
    t'.locate? path = some found := by
  rw [locate?] at hlocate ⊢
  rw [origin_of_grows h]
  split at hlocate
  · rw [if_pos ‹_›]
    exact follow_of_grows h hlocate
  · cases hlocate

theorem follow_append (t : FileTree) (place : Place) (parts rest : List String) :
    t.follow place (parts ++ rest) =
      (t.follow place parts).bind fun found => t.follow found rest := by
  induction parts generalizing place with
  | nil => rfl
  | cons part parts ih =>
      rw [List.cons_append, follow, follow]
      split
      · rfl
      · split
        · exact ih _
        · split <;> exact ih _

/-! ## Making directories -/

/-- The tools start where they started, and whatever stands in one tree stands in the other. -/
structure Within (t t' : FileTree) : Prop where
  start_eq : t'.start = t.start
  entryAt?_eq : ∀ place entry, t.entryAt? place = some entry → t'.entryAt? place = some entry

theorem Within.refl (t : FileTree) : Within t t := ⟨rfl, fun _ _ h => h⟩

theorem Within.trans {t'' : FileTree} (h : Within t t') (h' : Within t' t'') : Within t t'' :=
  ⟨h'.start_eq.trans h.start_eq, fun _ _ hentry => h'.entryAt?_eq _ _ (h.entryAt?_eq _ _ hentry)⟩

theorem Within.grows (h : Within t t') : Grows t t' :=
  ⟨h.start_eq, fun place => h.entryAt?_eq place _⟩

/-- What is put where nothing stands takes no place away. -/
theorem within_put (h : t.entryAt? place = none) (entry : FileEntry) :
    Within t (t.put place entry) := by
  refine ⟨rfl, fun other old hother => ?_⟩
  rw [entryAt?_put, if_neg, hother]
  rintro ⟨rfl, _⟩
  rw [h] at hother
  cases hother

/-- Directories are made where nothing stands, also where not all can be made. -/
theorem within_makeDirectories (t : FileTree) (place : Place) (parts : List String) :
    Within t (t.makeDirectories place parts).1 := by
  induction parts generalizing t place with
  | nil => exact .refl t
  | cons part rest ih =>
      rw [makeDirectories]
      split
      · exact .refl t
      · split
        · exact ih _ _
        · split
          · exact ih _ _
          · split
            · rename_i hnone
              split
              · exact (within_put hnone .directory).trans (ih _ _)
              · exact .refl t
            · exact ih _ _
            · exact .refl t

theorem within_makeDirectory (t : FileTree) (path : String) :
    Within t (t.makeDirectory path).1 := by
  rw [makeDirectory]
  split
  · exact .refl t
  · split
    · exact within_makeDirectories _ _ _
    · exact .refl t

/-! ## Writing one file -/

/-- A file that does not take the place of a directory. -/
theorem grows_put (h : t.entryAt? place ≠ some .directory) (entry : FileEntry) :
    Grows t (t.put place entry) := by
  refine ⟨rfl, fun other hother => ?_⟩
  rw [entryAt?_put, if_neg, hother]
  rintro ⟨rfl, _⟩
  exact h hother

theorem follow_name (h : t.entryAt? place = some .directory) {name : String}
    (hname : Path.staysAt name = false ∧ Path.leadsUp name = false) :
    t.follow place [name] = some (place ++ [name]) := by
  rw [follow_cons h]
  simp [hname, follow]

/-- A file that is put at a path stands where the path leads, and everything else is as before. -/
theorem putFile?_spec {path : String} {file : FileEntry} (h : t.putFile? path file = some t') :
    Grows t t' ∧ ∃ place, t'.locate? path = some place ∧ t'.entryAt? place = some file ∧
      ∀ other, other ≠ place → t'.entryAt? other = t.entryAt? other := by
  rw [putFile?] at h
  split at h
  · rename_i name husable hlast
    split at h
    · cases h
    · rename_i hname
      obtain ⟨hname, _⟩ : (Path.staysAt name = false ∧ Path.leadsUp name = false) ∧ _ := by
        simpa using hname
      obtain ⟨above, hfollow, h⟩ := Option.bind_eq_some_iff.mp h
      split at h
      · cases h
      · have habove : t.entryAt? above = some .directory := Decidable.not_not.mp ‹_›
        split at h
        · cases h
        · obtain rfl := Option.some.inj h
          have hgrows := grows_put ‹t.entryAt? (above ++ [name]) ≠ _› file
          refine ⟨hgrows, above ++ [name], ?_, ?_, ?_⟩
          · have hparts : Path.parts path = (Path.parts path).dropLast ++ [name] := by
              obtain ⟨init, hinit⟩ := List.getLast?_eq_some_iff.mp hlast
              rw [hinit, List.dropLast_concat]
            rw [locate?, if_pos husable, origin_of_grows hgrows, hparts, follow_append,
              follow_of_grows hgrows hfollow, Option.bind_some]
            exact follow_name (hgrows.isDirectory _ habove) hname
          · rw [entryAt?_put, if_pos ⟨rfl, by simp⟩]
          · intro other hne
            rw [entryAt?_put, if_neg fun hsame => hne hsame.1.symm]
  · cases h

/-- A file that is saved stands where its path leads, and everything that stood elsewhere still
stands. -/
theorem save_spec {path : String} {file : FileEntry} (h : t.save path file = (t', true)) :
    Grows t t' ∧ ∃ place, t'.locate? path = some place ∧ t'.entryAt? place = some file ∧
      ∀ other entry, other ≠ place → t.entryAt? other = some entry →
        t'.entryAt? other = some entry := by
  have hwithin := within_makeDirectory t (Path.parent path)
  rw [save] at h
  split at h
  · cases h
  · rename_i made hmade
    rw [hmade] at hwithin
    split at h
    · cases h
    · rename_i saved hput
      obtain rfl := (Prod.mk.inj h).1
      obtain ⟨hgrows, place, hlocate, hentry, hothers⟩ := putFile?_spec hput
      refine ⟨hwithin.grows.trans hgrows, place, hlocate, hentry, ?_⟩
      intro other entry hne hother
      rw [hothers other hne]
      exact hwithin.entryAt?_eq other entry hother

/-- A file that is written stands where its path leads, and everything that stood elsewhere still
stands. -/
theorem write_spec {path content : String} (h : t.write path content = (t', true)) :
    Grows t t' ∧ ∃ place, t'.locate? path = some place ∧
      t'.entryAt? place = some (.text content) ∧
      ∀ other entry, other ≠ place → t.entryAt? other = some entry →
        t'.entryAt? other = some entry :=
  save_spec h

/-! ## Writing several files -/

theorem writeAll_cons_iff {file : String × String} {rest : List (String × String)} :
    t.writeAll (file :: rest) = (t', true) ↔
      ∃ next, t.write file.1 file.2 = (next, true) ∧ next.writeAll rest = (t', true) := by
  rw [writeAll]
  rcases t.write file.1 file.2 with ⟨next, _ | _⟩ <;> simp

theorem grows_of_writeAll {files : List (String × String)} (h : t.writeAll files = (t', true)) :
    Grows t t' := by
  induction files generalizing t with
  | nil => exact (Prod.mk.inj h).1 ▸ Grows.refl t
  | cons file rest ih =>
      obtain ⟨next, hnext, hrest⟩ := writeAll_cons_iff.mp h
      exact (write_spec hnext).1.trans (ih hrest)

/-- Writing keeps what stands at a place that no path leads to. -/
theorem entryAt?_of_writeAll {files : List (String × String)} {entry : FileEntry}
    (h : t.writeAll files = (t', true)) (hentry : t.entryAt? place = some entry)
    (hother : ∀ file ∈ files, t'.locate? file.1 ≠ some place) :
    t'.entryAt? place = some entry := by
  induction files generalizing t with
  | nil => exact (Prod.mk.inj h).1 ▸ hentry
  | cons file rest ih =>
      obtain ⟨next, hnext, hrest⟩ := writeAll_cons_iff.mp h
      obtain ⟨hfile, hothers⟩ := List.forall_mem_cons.mp hother
      obtain ⟨_, written, hlocate, _, hkept⟩ := write_spec hnext
      refine ih hrest (hkept _ _ ?_ hentry) hothers
      rintro rfl
      exact hfile (locate?_of_grows (grows_of_writeAll hrest) hlocate)

theorem read_eq_ok_iff {path content : String} :
    t.read path = .ok content ↔
      ∃ place, t.locate? path = some place ∧ t.entryAt? place = some (.text content) := by
  rw [← Option.bind_eq_some_iff, ← standing?, read]
  rcases t.standing? path with _ | _ | _ | _ <;> simp

/-- Of files whose paths lead to different places each can be read after all are written. -/
theorem read_of_writeAll {files : List (String × String)} (h : t.writeAll files = (t', true))
    (hdistinct : files.Pairwise fun f g => ∀ place, t'.locate? f.1 = some place →
      t'.locate? g.1 ≠ some place) :
    ∀ file ∈ files, t'.read file.1 = .ok file.2 := by
  induction files generalizing t with
  | nil => simp
  | cons file rest ih =>
      obtain ⟨next, hnext, hrest⟩ := writeAll_cons_iff.mp h
      obtain ⟨hfirst, hdistinct⟩ := List.pairwise_cons.mp hdistinct
      refine List.forall_mem_cons.mpr ⟨?_, ih hrest hdistinct⟩
      obtain ⟨_, place, hlocate, hentry, _⟩ := write_spec hnext
      have hlocate' := locate?_of_grows (grows_of_writeAll hrest) hlocate
      have hentry' := entryAt?_of_writeAll hrest hentry fun other hother =>
        hfirst other hother place hlocate'
      exact read_eq_ok_iff.mpr ⟨place, hlocate', hentry'⟩

/-! ## Files of one directory -/

/-- Names that neither stay nor lead up lead down, one by one. -/
theorem follow_of_names {parts : List String}
    (hnames : ∀ part ∈ parts, Path.staysAt part = false ∧ Path.leadsUp part = false)
    (h : t.follow place parts = some found) : found = place ++ parts := by
  induction parts generalizing place with
  | nil => simpa [follow] using h.symm
  | cons part rest ih =>
      obtain ⟨hpart, hrest⟩ := List.forall_mem_cons.mp hnames
      rw [follow_cons (entryAt?_of_follow_cons h)] at h
      simp only [hpart, Bool.false_eq_true, if_false] at h
      simpa using ih hrest h

/-- A plain path leads down from where the directory is. -/
theorem locate?_join {dir path : String} {base : List String}
    (hbase : ∀ path, Path.isAbsolute path = false →
      Path.parts (Path.join dir path) = base ++ Path.parts path)
    (hplain : Path.Plain path) (h : t.locate? (Path.join dir path) = some found) :
    ∃ place, t.follow (t.origin dir) base = some place ∧ found = place ++ Path.parts path := by
  rw [locate?] at h
  split at h
  · rw [origin, Path.isAbsolute_join hplain.relative, ← origin, hbase path hplain.relative,
      follow_append] at h
    obtain ⟨place, hplace, hfollow⟩ := Option.bind_eq_some_iff.mp h
    exact ⟨place, hplace, follow_of_names hplain.names hfollow⟩
  · cases h

/-- Plain paths of one directory lead to different places. -/
theorem eq_of_locate?_join {dir path path' : String} (hplain : Path.Plain path)
    (hplain' : Path.Plain path') (h : t.locate? (Path.join dir path) = some place)
    (h' : t.locate? (Path.join dir path') = some place) : path = path' := by
  obtain ⟨base, hbase⟩ := Path.parts_join dir
  obtain ⟨start, hstart, hplace⟩ := locate?_join hbase hplain h
  obtain ⟨start', hstart', hplace'⟩ := locate?_join hbase hplain' h'
  obtain rfl := Option.some.inj (hstart.symm.trans hstart')
  have hparts : start ++ Path.parts path = start ++ Path.parts path' := hplace.symm.trans hplace'
  exact Path.parts_injective (List.append_cancel_left hparts)

/-- Of files that are written into one directory each can be read afterwards. -/
theorem read_of_writeAll_join {dir : String} {files : List (String × String)}
    (hplain : ∀ file ∈ files, Path.Plain file.1) (hdistinct : (files.map Prod.fst).Nodup)
    (h : t.writeAll (files.map fun file => (Path.join dir file.1, file.2)) = (t', true)) :
    ∀ file ∈ files, t'.read (Path.join dir file.1) = .ok file.2 := by
  have hplaces : (files.map fun file => (Path.join dir file.1, file.2)).Pairwise fun f g =>
      ∀ place, t'.locate? f.1 = some place → t'.locate? g.1 ≠ some place := by
    refine List.pairwise_map.mpr ((List.pairwise_map.mp hdistinct).imp_of_mem ?_)
    intro f g hf hg hne place hplace hplace'
    exact hne (eq_of_locate?_join (hplain f hf) (hplain g hg) hplace hplace')
  exact List.forall_mem_map.mp (read_of_writeAll h hplaces)

end BranchingStory.FileTree
