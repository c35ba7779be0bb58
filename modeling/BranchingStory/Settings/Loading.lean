import BranchingStory.Files.Tree
import BranchingStory.Settings

/-!
# Loading settings

Settings are read from a file.  A project without the file has the settings that
every field has of its own.
-/

namespace BranchingStory.Settings

/-- The settings in a file, if it is there. -/
def load (t : FileTree) (path : String) : Except SettingsError Settings :=
  if t.isFile path then
    match t.read? path with
    | none => .error .unreadable
    | some text => parse text
  else .ok {}

end BranchingStory.Settings
