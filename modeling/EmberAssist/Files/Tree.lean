import EmberAssist.Files.Source
import EmberAssist.Text.Utf8

/-! Files on a disk: bytes in a tree of directories. Segments of two dots lead back to the directory
above. -/
namespace EmberAssist

/-- The files of a disk, and the directories that are known to be there (`FilesystemSource`). Places
are absolute, as segments from the root on. -/
structure FileTree where
  files : List (List String × List UInt8)
  directories : List (List String)
deriving DecidableEq, Repr, Inhabited

namespace FileTree

/-- A disk with nothing but its root. -/
def empty : FileTree := ⟨[], []⟩

/-- Whether there is a directory at a place: the root, a known directory, or what one or a file is
in. -/
def isDirectoryAt (tree : FileTree) (place : List String) : Bool :=
  place.isEmpty || tree.directories.any place.isPrefixOf ||
    tree.files.any fun (file, _) => file != place && place.isPrefixOf file

/-- The place that segments lead to from another. All but the last of them lead through
directories. -/
def walk (tree : FileTree) (place : List String) : List String → Option (List String)
  | [] => some place
  | segment :: rest =>
    if !tree.isDirectoryAt place then none
    else if segment == ".." then walk tree place.dropLast rest
    else walk tree (place ++ [segment]) rest

/-- The place of an absolute path. -/
def place? (tree : FileTree) (path : FilePath) : Option (List String) := tree.walk [] path.parts

/-- Whether a path is that of a directory. -/
def isDirectory (tree : FileTree) (path : FilePath) : Bool :=
  (tree.place? path).any tree.isDirectoryAt

/-- The place of a file below a directory, relative to it. -/
def below? (directory file : List String) : Option String :=
  match Text.after? directory file with
  | some (first :: rest) => some ("/".intercalate (first :: rest))
  | _ => none

/-- The sorted paths of the files below a directory, relative to it (`list_files`). -/
def list (tree : FileTree) (directory : FilePath) : List String :=
  match tree.place? directory with
  | some place =>
    (tree.files.filterMap fun (file, _) => below? place file).mergeSort (· ≤ ·)
  | none => []

/-- The text without carriage returns: each is a line feed, together with one behind it. -/
def usualBreaks : List Char → List Char
  | '\r' :: '\n' :: rest => '\n' :: usualBreaks rest
  | '\r' :: rest => '\n' :: usualBreaks rest
  | c :: rest => c :: usualBreaks rest
  | [] => []

/-- The text of a file, if it can be read (`read_text`). -/
def read (tree : FileTree) (path : FilePath) : Option String := do
  let place ← tree.place? path
  let bytes ← tree.files.lookup place
  return String.ofList (usualBreaks (← Text.decodeUtf8? bytes))

/-- The tree as a source. -/
def source (tree : FileTree) : FileSource := ⟨tree.list, tree.read⟩

/-- Makes a directory. -/
def addDirectory (tree : FileTree) (path : FilePath) : FileTree :=
  { tree with directories := path.parts :: tree.directories }

/-- Deletes a file. The directory it is in stays. -/
def erase (tree : FileTree) (path : FilePath) : FileTree :=
  ⟨tree.files.filter (·.1 != path.parts), path.parts.dropLast :: tree.directories⟩

/-- Writes a file. -/
def insert (tree : FileTree) (path : FilePath) (bytes : List UInt8) : FileTree :=
  ⟨(path.parts, bytes) :: tree.files.filter (·.1 != path.parts), tree.directories⟩

/-- The files of a tree that another tree does not have with the same bytes. -/
def missingFrom (tree other : FileTree) : List FilePath :=
  (tree.files.filter fun (place, bytes) => other.files.lookup place != some bytes).map
    fun (place, _) => .ofString ("/" ++ "/".intercalate place)

/-- The paths of the files that differ between two trees. -/
def changes (earlier later : FileTree) : List FilePath :=
  (earlier.missingFrom later ++ later.missingFrom earlier).eraseDups

end FileTree

end EmberAssist
