import Std.Data.ExtTreeMap
import BranchingStory.Files.Path

/-!
# File trees

A file tree holds files and directories, and the place where the tools are started.  A
place is the list of the names that lead to it from the top.  A path is followed part by
part, an absolute one from the top and any other from the start, and every part but the
last has to be a directory.  Above the top there is the top again.

A file is written into the directory that its path names, and that directory is made if it
does not stand.  It is an error if a part of the way is a file, if a directory stands where
the file should be, or if a new name is too long.  The directories that were made before
the error stay.
-/

namespace BranchingStory

/-- What stands at a place. -/
inductive FileEntry where
  /-- A file that holds text. -/
  | text (content : String)
  /-- A file whose bytes are no text. -/
  | binary
  | directory
deriving DecidableEq, Repr

/-- A place in a file tree. -/
abbrev Place := List String

/-- The files below one top, and where the tools are started. -/
structure FileTree where
  /-- What stands at each place.  The top itself is left out. -/
  entries : Std.ExtTreeMap Place FileEntry compare := ∅
  /-- Where relative paths begin.  They lead nowhere if no directory stands there. -/
  start : Place := []
deriving DecidableEq, Repr

/-- Why the text of a file cannot be read. -/
inductive ReadError where
  /-- The path leads to nothing that stands. -/
  | missing
  /-- The path leads to a directory. -/
  | directory
  /-- The bytes of the file are no text. -/
  | binary
deriving DecidableEq, Repr

/-- The error in words. -/
def ReadError.message : ReadError → String
  | missing => "No such file or directory (os error 2)"
  | directory => "Is a directory (os error 21)"
  | binary => "stream did not contain valid UTF-8"

namespace FileTree

/-! ## Looking -/

/-- What stands at a place. -/
def entryAt? (t : FileTree) : Place → Option FileEntry
  | [] => some .directory
  | place => t.entries[place]?

/-- Follows the parts of a path from a place. -/
def follow (t : FileTree) (place : Place) : List String → Option Place
  | [] => some place
  | part :: rest =>
      if t.entryAt? place ≠ some .directory then none
      else if Path.staysAt part then t.follow place rest
      else if Path.leadsUp part then t.follow place.dropLast rest
      else t.follow (place ++ [part]) rest

/-- Where a path begins. -/
def origin (t : FileTree) (path : String) : Place := if Path.isAbsolute path then [] else t.start

/-- The place that a path leads to, whether something stands there or not.  A path that
cannot be used leads nowhere. -/
def locate? (t : FileTree) (path : String) : Option Place :=
  if Path.isUsable path then t.follow (t.origin path) (Path.parts path) else none

/-- What stands at a path. -/
def standing? (t : FileTree) (path : String) : Option FileEntry :=
  (t.locate? path).bind t.entryAt?

/-- A directory stands at the path. -/
def isDirectory (t : FileTree) (path : String) : Bool := t.standing? path == some .directory

/-- A file stands at the path. -/
def isFile (t : FileTree) (path : String) : Bool :=
  match t.standing? path with
  | some (.text _) => true
  | some .binary => true
  | _ => false

/-- The text of the file at a path. -/
def read (t : FileTree) (path : String) : Except ReadError String :=
  match t.standing? path with
  | none => .error .missing
  | some .directory => .error .directory
  | some .binary => .error .binary
  | some (.text content) => .ok content

/-- The text of the file at a path, if it can be read. -/
def read? (t : FileTree) (path : String) : Option String := (t.read path).toOption

/-- The name of a place right below another one. -/
def nameBelow? (parent : Place) : Place → Option String
  | [] => none
  | name :: names =>
      if (name :: names).dropLast = parent then (name :: names).getLast? else none

/-- The names in the directory at a path, in order. -/
def names (t : FileTree) (path : String) : List String :=
  match t.locate? path with
  | some place => t.entries.keys.filterMap (nameBelow? place)
  | none => []

/-! ## Writing -/

/-- Puts an entry at a place. -/
def put (t : FileTree) (place : Place) (entry : FileEntry) : FileTree :=
  { t with entries := t.entries.insert place entry }

/-- An entry changes what stands at its own place alone.  The top stays a directory. -/
theorem entryAt?_put (t : FileTree) (place other : Place) (entry : FileEntry) :
    (t.put place entry).entryAt? other =
      if place = other ∧ other ≠ [] then some entry else t.entryAt? other := by
  cases other with
  | nil => simp [entryAt?]
  | cons name names =>
      simp only [entryAt?, put, Std.ExtTreeMap.getElem?_insert,
        Std.LawfulEqCmp.compare_eq_iff_eq]
      grind

/-- Makes the directories that lead from a place along some parts, as far as they do not
stand.  Gives the tree after it and whether all of them stand then. -/
def makeDirectories (t : FileTree) (place : Place) : List String → FileTree × Bool
  | [] => (t, true)
  | part :: rest =>
      if t.entryAt? place ≠ some .directory then (t, false)
      else if Path.staysAt part then t.makeDirectories place rest
      else if Path.leadsUp part then t.makeDirectories place.dropLast rest
      else
        match t.entryAt? (place ++ [part]) with
        | none =>
            if Path.isName part then
              (t.put (place ++ [part]) .directory).makeDirectories (place ++ [part]) rest
            else (t, false)
        | some .directory => t.makeDirectories (place ++ [part]) rest
        | some _ => (t, false)

/-- Makes the directory at a path and those above it, as far as they do not stand. -/
def makeDirectory (t : FileTree) (path : String) : FileTree × Bool :=
  if path = "" then (t, true)
  else if Path.isUsable path then t.makeDirectories (t.origin path) (Path.parts path)
  else (t, false)

/-- Puts a file at a path.  The directory has to stand.  A file may take the place of a file
and not that of a directory. -/
def putFile? (t : FileTree) (path : String) (file : FileEntry) : Option FileTree :=
  match Path.isUsable path, (Path.parts path).getLast? with
  | true, some name =>
      if Path.staysAt name || Path.leadsUp name || !Path.isName name then none
      else do
        let place ← t.follow (t.origin path) (Path.parts path).dropLast
        if t.entryAt? place ≠ some .directory then none
        else if t.entryAt? (place ++ [name]) = some .directory then none
        else return t.put (place ++ [name]) file
  | _, _ => none

/-- Makes the directory of a file and puts the file at its path.  Gives the tree after it and
whether the file is there. -/
def save (t : FileTree) (path : String) (file : FileEntry) : FileTree × Bool :=
  match t.makeDirectory (Path.parent path) with
  | (made, false) => (made, false)
  | (made, true) =>
      match made.putFile? path file with
      | none => (made, false)
      | some saved => (saved, true)

/-- Writes a text file. -/
def write (t : FileTree) (path content : String) : FileTree × Bool := t.save path (.text content)

/-- Adds what stands at a path. -/
def add (t : FileTree) (path : String) : FileEntry → FileTree × Bool
  | .directory => t.makeDirectory path
  | file => t.save path file

/-- The tree of some entries at their paths, with the directory where the tools are started.  A
path that cannot be used is left out. -/
def ofEntriesAt (start : Place) (entries : List (String × FileEntry)) : FileTree :=
  entries.foldl (fun t entry => (t.add entry.1 entry.2).1)
    { (makeDirectories {} [] start).1 with start := start }

/-- The tree of the entries of one project, which stands right below the top. -/
def ofEntries (entries : List (String × FileEntry)) : FileTree := ofEntriesAt ["project"] entries

/-- Writes some files, in order.  Stops at the first that fails, and says whether none
did. -/
def writeAll (t : FileTree) : List (String × String) → FileTree × Bool
  | [] => (t, true)
  | (path, content) :: rest =>
      match t.write path content with
      | (t, false) => (t, false)
      | (t, true) => t.writeAll rest

/-- A path to a place, from the start if the place is below it. -/
def pathTo (t : FileTree) (place : Place) : String :=
  if t.start.isPrefixOf place then "/".intercalate (place.drop t.start.length)
  else "/" ++ "/".intercalate place

/-- The text files that are new or have another text than before, by path. -/
def changedSince (t before : FileTree) : List (String × String) :=
  t.entries.toList.filterMap fun (place, entry) =>
    match entry with
    | .text content =>
        if before.entries[place]? = some entry then none else some (t.pathTo place, content)
    | _ => none

/-- The directories that are new, by path.  A directory stands before those in it. -/
def madeSince (t before : FileTree) : List String :=
  t.entries.toList.filterMap fun (place, entry) =>
    if entry = .directory ∧ before.entries[place]? ≠ some .directory then some (t.pathTo place)
    else none

end FileTree

example : ((FileTree.ofEntries [("a/b.ron", .text "x"), ("a/c", .directory)]).names "./a/")
    = ["b.ron", "c"] := by decide
example :
    (FileTree.ofEntries [("a//b/", .directory)]).isDirectory "/project/a/b" = true := by decide
example : let t := (FileTree.ofEntries [("a", .text "x")]).write "../b/a" "y"
    t.2 = true ∧ t.1.isFile "/b/a" = true := by decide
example : let t := (FileTree.ofEntries [("a", .text "x")]).write "b/../a/c" "y"
    t.2 = false ∧ t.1.isDirectory "b" = true := by decide

end BranchingStory
