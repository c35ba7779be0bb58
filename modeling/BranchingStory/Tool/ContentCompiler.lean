import BranchingStory.Build
import BranchingStory.CommandLine
import BranchingStory.Diagnostic.Encoding
import BranchingStory.Tool.Run

/-!
# The content compiler

The tool compiles the drafts of a project, prints the report and publishes the result
if it has no errors.  The exit code is that of the report.
-/

namespace BranchingStory.Tool.ContentCompiler

/-- The name of the tool. -/
def name : String := "content_compiler"

/-- The options. -/
def usage : CommandLine.Usage :=
  [("config", .path), ("source", .path), ("output", .path), ("final-chapter", .number),
    ("check", .flag), ("json", .flag)]

/-- What the options ask for. -/
structure Arguments where
  /-- The file of the settings. -/
  config : String
  /-- The source directory, if it is not that of the settings. -/
  source : Option String
  /-- The directory to publish into, if it is not that of the settings. -/
  output : Option String
  /-- The last chapter, if it is not that of the settings. -/
  finalChapter : Option Nat
  /-- Publish nothing. -/
  check : Bool
  /-- Print the report as JSON. -/
  json : Bool
deriving DecidableEq, Repr

/-- Reads the options. -/
def Arguments.parse (arguments : List String) : Except CommandLine.Refusal Arguments := do
  let found ← CommandLine.parse usage arguments
  return { config := (found.lookup "config").getD settingsFile
           source := found.lookup "source"
           output := found.lookup "output"
           finalChapter := (found.lookup "final-chapter").bind CommandLine.number?
           check := (found.lookup "check").isSome
           json := (found.lookup "json").isSome }

/-- The settings of the project with what the options say otherwise. -/
def Arguments.apply (a : Arguments) (s : Settings) : Settings :=
  { s with
    sourceDir := a.source.getD s.sourceDir
    outputDir := a.output.getD s.outputDir
    finalChapter := a.finalChapter.or s.finalChapter }

/-- The report as it is printed. -/
def printed (json : Bool) (report : Report) : String :=
  if json then report.toJson.pretty ++ "\n"
  else "\n=== Content Report ===\n\n" ++ report.summary

/-- Builds and publishes with some settings. -/
def runWith (a : Arguments) (settings : Settings) (files : FileTree) : Run :=
  match settings.manuscript files with
  | .error e => .failure files "" e.message
  | .ok manuscript =>
      let build := manuscript.build settings.edition
      let output := printed a.json build.report
      if a.check || build.manifest.isNone then ⟨build.exitCode, output, [], files⟩
      else
        match build.publish files settings.outputDir with
        | (files, .ok _) => ⟨build.exitCode, output, [], files⟩
        | (files, .error e) => .failure files output e.message

/-- The whole tool. -/
def run (arguments : List String) (files : FileTree) : Run :=
  match Arguments.parse arguments with
  | .error e => .refused name usage files e
  | .ok a =>
      match loadSettings files a.config with
      | .error e => .failure files "" e
      | .ok settings => runWith a (a.apply settings) files

end BranchingStory.Tool.ContentCompiler
