import BranchingStory.Compile.Edition
import BranchingStory.Ron.Record
import BranchingStory.Text.Blank

/-!
# Settings

The settings of a project: its reference language, its directories, its last
chapter and its log.  Every setting has a value of its own, so a project needs no
settings at all.
-/

namespace BranchingStory

open Ron (Shape string? recordNumber? option? word? record? optional?)

/-- The format of the log. -/
inductive LogFormat where
  | pretty
  | json
deriving DecidableEq, Repr, Inhabited

namespace LogFormat

/-- The name authors write. -/
def name : LogFormat → String
  | pretty => "pretty"
  | json => "json"

/-- The format of that name. -/
def ofName? (s : String) : Option LogFormat := [pretty, json].find? (·.name == s)

end LogFormat

/-- How a run is logged. -/
structure LogSettings where
  level : String := "info"
  format : LogFormat := .pretty
deriving DecidableEq, Repr, Inhabited

/-- The settings of a project. -/
structure Settings where
  /-- The language that every text must have. -/
  referenceLanguage : String := "english"
  /-- The directory of the drafts. -/
  sourceDir : String := "source"
  /-- The directory to publish into. -/
  outputDir : String := "content"
  /-- The directory of the registry and the bundles. -/
  localesDir : String := "locales"
  /-- The chapter the story ends with, if it is fixed. -/
  finalChapter : Option Nat := none
  /-- The log. -/
  logging : LogSettings := {}
deriving DecidableEq, Repr, Inhabited

/-- Why settings cannot be used. -/
inductive SettingsError where
  /-- The bytes of the file are no text. -/
  | unreadable
  /-- The text is no settings. -/
  | malformed
  /-- The reference language is blank. -/
  | emptyReferenceLanguage
deriving DecidableEq, Repr

/-- The error in words. -/
def SettingsError.message : SettingsError → String
  | unreadable => "IO error: stream did not contain valid UTF-8"
  | malformed => "RON deserialization error: not settings"
  | emptyReferenceLanguage => "reference language must not be empty"

/-! ## Reading -/

namespace LogSettings

/-- The fields of how a run is logged. -/
def fields : List (String × Shape) := [("level", .plain), ("format", .plain)]

/-- Reads how a run is logged. -/
def ofRon? (v : Ron) : Option LogSettings := do
  let found ← record? "LoggingConfig" fields v
  let default : LogSettings := {}
  return { level := ← optional? found "level" default.level string?
           format := ← optional? found "format" default.format (word? LogFormat.ofName?) }

end LogSettings

namespace Settings

/-- The edition that the settings ask for. -/
def edition (s : Settings) : Edition := ⟨s.referenceLanguage, s.finalChapter⟩

/-- The fields of settings. -/
def fields : List (String × Shape) :=
  [("reference_language", .plain), ("source_dir", .plain), ("output_dir", .plain),
    ("locales_dir", .plain), ("final_chapter", .option .plain),
    ("logging", .record LogSettings.fields)]

/-- Reads settings. -/
def ofRon? (v : Ron) : Option Settings := do
  let found ← record? "Config" fields v
  let default : Settings := {}
  return { referenceLanguage :=
             ← optional? found "reference_language" default.referenceLanguage string?
           sourceDir := ← optional? found "source_dir" default.sourceDir string?
           outputDir := ← optional? found "output_dir" default.outputDir string?
           localesDir := ← optional? found "locales_dir" default.localesDir string?
           finalChapter := ← optional? found "final_chapter" default.finalChapter
             (option? recordNumber?)
           logging := ← optional? found "logging" default.logging LogSettings.ofRon? }

/-- The settings that a whole text writes.  A blank reference language is an error. -/
def parse (text : String) : Except SettingsError Settings :=
  match (Ron.parse? (.record fields) text).bind ofRon? with
  | none => .error .malformed
  | some settings =>
      if Text.isBlank settings.referenceLanguage then .error .emptyReferenceLanguage
      else .ok settings

end Settings

end BranchingStory
