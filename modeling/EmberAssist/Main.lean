import EmberAssist.CommandLine.Run
import EmberAssist.Readers.Usual

/-! The program: it looks at the disk and the environment, carries out the command line, and prints what
that shows. -/
namespace EmberAssist.Program

open CommandLine

/-- What a directory on the disk has by a name. -/
def entryIn (directory : FilePath) (name : String) : IO.FS.DirEntry := ⟨directory.text, name⟩

/-- Adds the file at a place, if it can be read. -/
def addFile (tree : FileTree) (place : FilePath) : IO FileTree := do
  try
    let bytes ← IO.FS.readBinFile place.text
    return { tree with files := (place.parts, bytes.toList) :: tree.files }
  catch _ => return tree

/-- Adds what is at a place and below it. Links to directories are not followed, and what cannot be
read is left out. -/
partial def addAll (tree : FileTree) (place : FilePath) : IO FileTree := do
  try
    let entries ← (entryIn place ".").path.readDir
    entries.foldlM (fun tree entry => do
      let metadata ← entry.path.symlinkMetadata
      if metadata.type == .dir then addAll tree (place / entry.fileName)
      else addFile tree (place / entry.fileName)) (tree.addDirectory place)
  catch _ => addFile tree place

/-- A path without segments of two dots, each of which takes back the segment before it. -/
def straight (path : FilePath) : FilePath :=
  path.parts.foldl (fun above part => if part == ".." then above.parents.headD above else above / part)
    (.top .root)

/-- The nearest directory at or above a place that has the marker of projects, or the place itself. -/
def top (marker : String) (place : FilePath) : IO FilePath := do
  let marked ← (place :: place.parents).filterM fun directory =>
    (entryIn directory marker).path.pathExists
  return marked.head?.getD place

/-- The files that a command line can ask for: those around the working directory and around what the
arguments name. -/
def readDisk (marker : String) (working : FilePath) (arguments : List String) : IO FileTree := do
  let places := working :: arguments.map fun argument => straight (working / argument)
  let tops := (← places.mapM (top marker)).eraseDups
  let outermost := tops.filter fun place => !tops.any fun other => place.parents.contains other
  outermost.foldlM addAll .empty

/-- Prints a text. -/
def printOut (chars : List Char) : IO Unit := do
  let output ← IO.getStdout
  output.putStr (String.ofList chars)
  output.flush

/-- A path below a directory as it continues the way the directory is written. -/
def continued (directory path : FilePath) : FilePath :=
  match Text.after? (straight directory).parts path.parts with
  | some rest => rest.foldl (· / ·) directory
  | none => path

/-- Shows modules again whenever files have changed, until the program is stopped. -/
partial def follow (read : IO FileTree) (tree : FileTree) (view : IndexView) : IO Unit := do
  IO.sleep 500
  let later ← read
  let changed := (tree.changes later).map (continued view.project.root)
  let (shown, view) := view.follow later.source changed
  printOut shown
  follow read later view

/-- Carries out a command line. -/
def run (arguments : List String) : IO UInt32 := do
  let environment ← Settings.environmentNames.mapM fun name => do return (name, ← IO.getEnv name)
  let lookup := fun name => (environment.lookup name).join
  let working : FilePath := .ofString (toString (← IO.currentDir))
  let read := readDisk (Settings.ofEnvironment lookup).projectMarker working arguments
  let tree ← read
  match (World.mk .usual lookup working tree).run arguments with
  | .ended code output =>
    printOut output
    return code.toUInt32
  | .serving server =>
    (← IO.getStderr).putStrLn ("Cannot serve by " ++ server.transport ++ ".")
    return 1
  | .watching output view =>
    printOut output
    follow read tree view
    return 0

end EmberAssist.Program

/-- The program. -/
def main (arguments : List String) : IO UInt32 := EmberAssist.Program.run arguments
