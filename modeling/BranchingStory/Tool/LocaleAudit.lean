import BranchingStory.Build
import BranchingStory.CommandLine
import BranchingStory.Locale.Audit
import BranchingStory.Text.Padding
import BranchingStory.Tool.Run

/-!
# The locale audit

The tool audits the translations of a project against its reference language, prints
how much of each language is there and writes the gaps to a file.  It may audit the
text of the chapters and the cases too, and it may insist on the built-in languages.
-/

namespace BranchingStory.Tool.LocaleAudit

/-- The name of the tool. -/
def name : String := "locale_audit"

/-- The options. -/
def usage : CommandLine.Usage :=
  [("config", .path), ("locales", .path), ("file", .text), ("content", .flag),
    ("require-builtin", .flag), ("report", .path)]

/-- What the options ask for. -/
structure Arguments where
  /-- The file of the settings. -/
  config : String
  /-- The directory of locales, if it is not that of the settings. -/
  locales : Option String
  /-- The file of each language. -/
  file : String
  /-- Audit the text of the compiled records too. -/
  content : Bool
  /-- Every built-in language has to be registered. -/
  requireBuiltin : Bool
  /-- The file for the gaps. -/
  report : String
deriving DecidableEq, Repr

/-- Reads the options. -/
def Arguments.parse (arguments : List String) : Except CommandLine.Refusal Arguments := do
  let found ← CommandLine.parse usage arguments
  return { config := (found.lookup "config").getD settingsFile
           locales := found.lookup "locales"
           file := (found.lookup "file").getD "ui.json"
           content := (found.lookup "content").isSome
           requireBuiltin := (found.lookup "require-builtin").isSome
           report := (found.lookup "report").getD "missing_keys_report.json" }

/-- The settings of the project with what the options say otherwise. -/
def Arguments.apply (a : Arguments) (s : Settings) : Settings :=
  { s with localesDir := a.locales.getD s.localesDir }

/-! ## What is printed -/

/-- The number of the languages and those written from right to left. -/
def registryLines (r : Registry) : String :=
  "Registered languages: " ++ r.entries.size.repr ++ "\n"
    ++ (if r.rightToLeft.isEmpty then ""
        else "Right-to-left: " ++ ", ".intercalate r.rightToLeft ++ "\n")

/-- The line of a language with gaps. -/
def coverageLine (a : Audit) (language : String) (keys : List String) : String :=
  Text.padRight 12 ' ' language ++ " "
    ++ Text.padLeft 6 ' ' (Decimal.oneDecimal (Audit.percent a.referenceKeys keys.length))
    ++ "%  " ++ keys.length.repr ++ " missing\n"

/-- The gaps of one surface. -/
def auditLines (a : Audit) : String :=
  "\n=== " ++ a.surface ++ " (" ++ a.referenceKeys.repr ++ " reference keys, " ++ a.reference
    ++ ") ===\n\n"
    ++ (if a.isComplete then "No missing keys\n"
        else
          String.join ((a.missing.toList.filter fun (_, keys) => !keys.isEmpty).map
              fun (language, keys) => coverageLine a language keys)
            ++ "\nSummary: " ++ a.totalMissing.repr ++ " missing keys\n")

/-! ## The tool -/

/-- The audits that the options ask for, or the error to show. -/
def audits (a : Arguments) (settings : Settings) (registry : Registry) (files : FileTree) :
    Except String (List Audit) :=
  match Bundle.load files "ui" settings.localesDir a.file with
  | .error e => .error e.message
  | .ok bundle =>
      let surface := bundle.audit registry registry.reference
      if a.content then
        match settings.manuscript files with
        | .error e => .error e.message
        | .ok manuscript =>
            let build := manuscript.build settings.edition
            .ok [surface, (Bundle.ofChapters build.chapters).audit registry registry.reference,
              (Bundle.ofCases build.cases).audit registry registry.reference]
      else .ok [surface]

/-- Audits with a registry.  `output` is printed already. -/
def report (a : Arguments) (settings : Settings) (registry : Registry) (files : FileTree)
    (output : String) : Run :=
  match audits a settings registry files with
  | .error e => .failure files output e
  | .ok audits =>
      let output := output ++ String.join (audits.map auditLines)
      match files.write a.report (Build.fileText (Json.ofList Audit.toJson audits)) with
      | (files, false) => .failure files output BuildError.unwritable.message
      | (files, true) => ⟨0, output ++ "\nDetailed report: " ++ a.report ++ "\n", [], files⟩

/-- Audits with some settings. -/
def runWith (a : Arguments) (settings : Settings) (files : FileTree) : Run :=
  match Registry.load files settings.localesDir with
  | .error e => .failure files "" (BuildError.registry e).message
  | .ok registry =>
      match registry.checkReference settings.referenceLanguage with
      | .error e => .failure files "" e.message
      | .ok () =>
          let output := registryLines registry
          let missing := registry.missing Registry.builtin.codes
          if a.requireBuiltin && !missing.isEmpty then
            .failure files output
              ("registry lacks required languages: " ++ ", ".intercalate missing)
          else report a settings registry files output

/-- The whole tool. -/
def run (arguments : List String) (files : FileTree) : Run :=
  match Arguments.parse arguments with
  | .error e => .refused name usage files e
  | .ok a =>
      match loadSettings files a.config with
      | .error e => .failure files "" e
      | .ok settings => runWith a (a.apply settings) files

end BranchingStory.Tool.LocaleAudit
