/-!
# Paths

A path is a text whose parts are separated by slashes.  Joining a path to a
directory keeps both as they are written, so the path is shown the way the author
of the settings wrote it.

A path and each name in it have a longest length in bytes, and no path holds the
character zero.
-/

namespace BranchingStory.Path

/-- The path starts at the top of everything and not where the tool is started. -/
def isAbsolute (path : String) : Bool := path.toList.head? == some '/'

/-- A path inside a directory.  An absolute path stays what it is. -/
def join (dir path : String) : String :=
  if isAbsolute path then path
  else if dir.toList = [] ∨ dir.toList.getLast? = some '/' then dir ++ path
  else dir ++ "/" ++ path

/-- The texts between the slashes. -/
def splitSlashes : List Char → List (List Char)
  | [] => [[]]
  | c :: s =>
      if c = '/' then [] :: splitSlashes s
      else
        match splitSlashes s with
        | [] => [[c]]
        | part :: rest => (c :: part) :: rest

/-- The parts of a path.  A slash at the end makes the last part empty. -/
def parts (path : String) : List String := (splitSlashes path.toList).map String.ofList

/-- The name ends in a dot and the extension, and something stands before the dot. -/
def hasExtension (extension name : String) : Bool :=
  ('.' :: extension.toList).isSuffixOf name.toList && extension.length + 1 < name.length

/-- The longest path that can be followed, in bytes. -/
def maxLength : Nat := 4095

/-- The longest name, in bytes. -/
def maxNameLength : Nat := 255

/-- The path can be followed: it is not empty and not too long, and it holds no character
zero. -/
def isUsable (path : String) : Bool :=
  path != "" && path.utf8ByteSize ≤ maxLength && !path.toList.contains '\x00'

/-- A file may have that name. -/
def isName (part : String) : Bool := part.utf8ByteSize ≤ maxNameLength

/-- The part leads to where the path is already. -/
def staysAt (part : String) : Bool := part == "" || part == "."

/-- The part leads to the directory above. -/
def leadsUp (part : String) : Bool := part == ".."

/-- The path of the directory that holds what the path leads to.  It is empty if that is the top or
the place where the path starts. -/
def parent (path : String) : String :=
  let names := (parts path).reverse.dropWhile staysAt
  "/".intercalate (names.tail.dropWhile staysAt).reverse

example : join "source" "main" = "source/main" := by decide
example : join "source/" "main" = "source/main" := by decide
example : join "" "main" = "main" := by decide
example : parts "a//b/" = ["a", "", "b", ""] := by decide
example : parent "/a/./b//" = "/a" ∧ parent "a" = "" ∧ parent "/a" = "" := by decide
example : isUsable "" = false ∧ isUsable "a\x00b" = false := by decide
example : hasExtension "ron" "a.ron" = true := by decide
example : hasExtension "ron" ".ron" = false := by decide

end BranchingStory.Path
