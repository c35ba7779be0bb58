import BranchingStory.Files.Tree
import BranchingStory.Json.Parser
import BranchingStory.Json.Record
import BranchingStory.Locale.Builtin
import BranchingStory.Locale.Bundle
import BranchingStory.Locale.Reading

/-!
# Loading registries and bundles

A directory of locales may hold a registry, in `_meta/registry.ron`.  Beside it each
language has a directory of its own, and each surface a file of its texts in every
one of them.  Directories whose names start with an underscore are no languages, and
a language without the file of a surface has no text there.
-/

namespace BranchingStory

/-! ## Registries -/

namespace Registry

/-- The file of the registry in a directory of locales. -/
def fileName : String := "_meta/registry.ron"

/-- The registry in a directory of locales, or the built-in one if there is none. -/
def load (t : FileTree) (dir : String) : Except RegistryError Registry :=
  let path := Path.join dir fileName
  if t.isFile path then
    match t.read? path with
    | none => .error .unreadable
    | some text => parse text
  else .ok builtin

end Registry

/-! ## Bundles -/

/-- Why there is no bundle. -/
inductive BundleError where
  /-- The bytes of the file are no text. -/
  | unreadable
  /-- A text is no object of strings. -/
  | malformed (path : String)
  | missingDirectory (dir : String)
deriving DecidableEq, Repr

/-- The error in words. -/
def BundleError.message : BundleError → String
  | unreadable => "IO error: stream did not contain valid UTF-8"
  | malformed path => "invalid JSON in " ++ path ++ ": not an object of strings"
  | missingDirectory dir => "locale directory not found: " ++ dir

namespace Bundle

/-- The text that a file of one language writes. -/
def parseTexts? (text : String) : Option Translations :=
  (Json.parse? text).bind (Json.map? Json.string?)

/-- The languages of a directory of locales, in order. -/
def languageNames (t : FileTree) (dir : String) : List String :=
  (t.names dir).filter fun name =>
    t.isDirectory (Path.join dir name) && name.toList.head? != some '_'

/-- The texts of a language in a file of its directory, if the file is there. -/
def loadLanguage (t : FileTree) (dir file language : String) :
    Except BundleError (Option (String × Translations)) :=
  let path := Path.join (Path.join dir language) file
  if t.isFile path then
    match t.read? path with
    | none => .error .unreadable
    | some text =>
        match parseTexts? text with
        | none => .error (.malformed path)
        | some texts => .ok (some (language, texts))
  else .ok none

/-- The bundle of a surface from a file of each language.  The first file that cannot
be used is the error. -/
def load (t : FileTree) (surface dir file : String) : Except BundleError Bundle :=
  if t.isDirectory dir then
    ((languageNames t dir).mapM (loadLanguage t dir file)).map fun languages =>
      ofLanguages surface (.ofList (languages.filterMap id))
  else .error (.missingDirectory dir)

end Bundle

end BranchingStory
