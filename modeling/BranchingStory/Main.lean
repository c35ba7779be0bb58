import BranchingStory.Tool.ContentCompiler
import BranchingStory.Tool.LocaleAudit

/-!
# The command line

The first argument names the tool and the others are its options.  The tool sees the
files below the directory it is started in, and may write anywhere.  Everything it
decides is decided by `Tool.ContentCompiler.run` and `Tool.LocaleAudit.run`: this module
reads the files before the run, and after it makes the new directories and writes the
changed files.
-/

namespace BranchingStory.Main

/-- What the bytes of a file are. -/
def entryOfBytes (bytes : ByteArray) : FileEntry :=
  match String.fromUTF8? bytes with
  | some content => .text content
  | none => .binary

/-- The files below a directory of the given entries, with their paths.  `path` shows the
directory, and is empty for the root. -/
partial def readFiles (path : String) (entries : Array IO.FS.DirEntry) :
    IO (List (String × FileEntry)) := do
  let mut found := []
  for entry in entries do
    let name := Path.join path entry.fileName
    if ← entry.path.isDir then
      found := found ++ (name, .directory) :: (← readFiles name (← entry.path.readDir))
    else
      found := found ++ [(name, entryOfBytes (← IO.FS.readBinFile entry.path))]
  return found

/-- The tool of that name. -/
def tool? : String → Option (List String → FileTree → Tool.Run)
  | "content_compiler" => some Tool.ContentCompiler.run
  | "locale_audit" => some Tool.LocaleAudit.run
  | _ => none

end BranchingStory.Main

open BranchingStory in
/-- Runs the tool that the first argument names. -/
def main (arguments : List String) : IO UInt32 := do
  match arguments with
  | [] => return 2
  | name :: arguments =>
      match Main.tool? name with
      | none => return 2
      | some tool =>
          let root ← IO.currentDir
          let start := (Path.parts root.toString).filter fun part => !Path.staysAt part
          let before := FileTree.ofEntriesAt start (← Main.readFiles "" (← root.readDir))
          let run := tool arguments before
          IO.print run.output
          for error in run.errors do
            IO.eprintln (Tool.errorLine error)
          for path in run.files.madeSince before do
            IO.FS.createDirAll path
          for (path, content) in run.files.changedSince before do
            IO.FS.writeFile path content
          return run.exitCode.toUInt32
