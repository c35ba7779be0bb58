import BranchingStory.CommandLine
import BranchingStory.Files.Tree
import BranchingStory.Settings.Loading

/-!
# Runs of a tool

A tool takes its arguments and the files below the directory it is started in.  It
gives an exit code, what it prints, the errors it shows and the files it leaves.
-/

namespace BranchingStory.Tool

/-- The result of one run. -/
structure Run where
  exitCode : Nat
  output : String
  errors : List String
  files : FileTree
deriving DecidableEq, Repr

/-- The run of a tool that shows how it is used, or whose arguments cannot be used. -/
def Run.refused (tool : String) (usage : CommandLine.Usage) (files : FileTree) :
    CommandLine.Refusal → Run
  | .help => ⟨0, usage.text tool, [], files⟩
  | .badUsage => ⟨2, "", [], files⟩

/-- A run that ends with an error after it has printed something. -/
def Run.failure (files : FileTree) (output error : String) : Run := ⟨1, output, [error], files⟩

/-- How an error is shown. -/
def errorLine (error : String) : String := "ERROR: " ++ error

/-- The file of the settings if no other is named. -/
def settingsFile : String := "narrative.ron"

/-- The settings in a file, or the error to show. -/
def loadSettings (files : FileTree) (path : String) : Except String Settings :=
  (Settings.load files path).mapError fun e =>
    "Failed to load config '" ++ path ++ "': " ++ e.message

end BranchingStory.Tool
