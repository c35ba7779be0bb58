import BranchingStory.Check.Story
import BranchingStory.Compile.Manuscript
import BranchingStory.Files.Tree
import BranchingStory.Json.Printer
import BranchingStory.Locale.Loading
import BranchingStory.Manuscript.Loading
import BranchingStory.Publication.Manifest
import BranchingStory.Settings

/-!
# Builds

A build compiles a manuscript, checks the result as one story and, if nothing is
wrong, describes it in a manifest.  Building never fails: whatever is wrong stands in
the report, the problems of the records before those of the story.

Publishing writes one document for each record and then the manifest.  A build
without a manifest writes nothing.
-/

namespace BranchingStory

/-- The result of one build. -/
structure Build where
  chapters : List Chapter
  cases : List Case
  report : Report
  manifest : Option Manifest
deriving DecidableEq, Repr

/-- Why a build cannot be set up or published. -/
inductive BuildError where
  | source (e : SourceError)
  | registry (e : RegistryError)
  | manifest (e : ManifestError)
  /-- A file cannot be written. -/
  | unwritable
deriving DecidableEq, Repr

/-- The error in words. -/
def BuildError.message : BuildError → String
  | source e => "source error: " ++ e.message
  | registry e => "registry error: " ++ e.message
  | manifest e => "manifest error: " ++ e.message
  | unwritable => "IO error: the file cannot be written"

/-- Compiles, checks and describes a manuscript. -/
def Manuscript.build (e : Edition) (m : Manuscript) : Build :=
  let compiled := m.compile e
  let report := compiled.report ++ storyProblems compiled.chapters compiled.cases
  { chapters := compiled.chapters
    cases := compiled.cases
    report := report
    manifest := (Manifest.build compiled.chapters compiled.cases report).toOption }

namespace Build

/-- One if some problem is an error, zero otherwise. -/
def exitCode (b : Build) : Nat := b.report.exitCode

/-- A document as the text of a file: its pretty form and the end of the line. -/
def fileText (v : Json) : String := v.pretty ++ "\n"

/-- The files of a publication with their texts, in the order they are written. -/
def files (b : Build) (manifest : Manifest) (dir : String) : List (String × String) :=
  (b.chapters.map fun c =>
      (Path.join dir (chapterFile c.number), fileText (ChapterDocument.ofChapter c).toJson))
    ++ (b.cases.map fun c =>
      (Path.join dir (caseFile c.number), fileText (CaseDocument.ofCase c).toJson))
    ++ [(Path.join dir manifestFile, fileText manifest.toJson)]

/-- Writes the files of a publication.  Gives the tree after it and the paths that were
written.  A file that cannot be written stops the rest. -/
def publish (b : Build) (t : FileTree) (dir : String) :
    FileTree × Except BuildError (List String) :=
  match b.manifest with
  | none => (t, .error (.manifest ⟨b.report.errors.length⟩))
  | some manifest =>
      match t.writeAll (b.files manifest dir) with
      | (t, true) => (t, .ok ((b.files manifest dir).map Prod.fst))
      | (t, false) => (t, .error .unwritable)

end Build

/-- The manuscript in the source directory of the settings. -/
def Settings.manuscript (s : Settings) (t : FileTree) : Except BuildError Manuscript :=
  (Manuscript.load t s.sourceDir).mapError .source

end BranchingStory
