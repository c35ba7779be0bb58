import BranchingStory.Draft.Reading
import BranchingStory.Files.Tree
import BranchingStory.Manuscript
import BranchingStory.Results

/-!
# Loading a manuscript

The drafts of a manuscript are the files with the extension `ron` right inside two
directories: `main` holds the chapters and `side` the cases.  Files are read in the
order of their names.  A file that cannot be read as a record is set aside with a
diagnostic and does not keep the others from loading.

The readers of the records are arguments of `Manuscript.loadWith`, so what loading
says about files does not hang on the notation they are written in.  The diagnostic of a
file gives the reason that its reader gives.
-/

namespace BranchingStory

/-- Why a file is no record. -/
inductive FileFault where
  /-- The file cannot be read as text. -/
  | unreadable (e : ReadError)
  /-- The text is no record, for the reason that the reader gives. -/
  | malformed (reason : String)
deriving DecidableEq, Repr

/-- The fault in words. -/
def FileFault.message : FileFault → String
  | unreadable e => "IO error: " ++ e.message
  | malformed reason => "RON deserialization error: " ++ reason

/-- Why there is no manuscript. -/
inductive SourceError where
  | missingDirectory (dir : String)
deriving DecidableEq, Repr

/-- The error in words. -/
def SourceError.message : SourceError → String
  | missingDirectory dir => "source directory not found: " ++ dir

namespace Manuscript

/-- The record in a file, or why there is none. -/
def readRecord {α : Type} (parse : String → Except String α) (t : FileTree) (path : String) :
    Except FileFault α :=
  match t.read path with
  | .error e => .error (.unreadable e)
  | .ok text =>
      match parse text with
      | .error reason => .error (.malformed reason)
      | .ok record => .ok record

/-- The diagnostic for a file that is no record. -/
def rejection (path : String) (fault : FileFault) : Diagnostic :=
  .malformed (.file path) "file" fault.message

/-- The record in each file of a directory, or a diagnostic for the file.  A name
that is no directory has no files. -/
def readDirectory {α : Type} (parse : String → Except String α) (t : FileTree) (dir : String) :
    List (Except Diagnostic α) :=
  if t.isDirectory dir then
    ((t.names dir).filter (Path.hasExtension "ron")).map fun name =>
      let path := Path.join dir name
      (readRecord parse t path).mapError (rejection path)
  else []

/-- The manuscript in a directory, with given readers for the records. -/
def loadWith (parseChapter : String → Except String ChapterDraft)
    (parseCase : String → Except String CaseDraft) (t : FileTree) (dir : String) :
    Except SourceError Manuscript :=
  if t.isDirectory dir then
    let chapters := readDirectory parseChapter t (Path.join dir "main")
    let cases := readDirectory parseCase t (Path.join dir "side")
    .ok { chapters := successes chapters
          cases := successes cases
          rejected := failures chapters ++ failures cases }
  else .error (.missingDirectory dir)

/-- The manuscript in a directory. -/
def load (t : FileTree) (dir : String) : Except SourceError Manuscript :=
  loadWith ChapterDraft.parse CaseDraft.parse t dir

end Manuscript

end BranchingStory
