import EmberAssist.FilePath

/-! Where files are read from. A source tells the files below a directory and the texts of files, as
they are at one moment. -/
namespace EmberAssist

/-- The files of a moment. -/
structure FileSource where
  /-- The paths of the files below a directory, relative to it. -/
  list : FilePath → List String
  /-- The text of a file, if it can be read. -/
  read : FilePath → Option String

/-- Files kept by their paths as they are written out. A file without a text can be listed but not
read. -/
structure FileTable where
  entries : List (String × Option String)
deriving DecidableEq, Repr, Inhabited

namespace FileTable

/-- No files. -/
def empty : FileTable := ⟨[]⟩

/-- Removes a file. -/
def erase (table : FileTable) (path : String) : FileTable :=
  ⟨table.entries.filter (·.1 != path)⟩

/-- Writes a file. -/
def insert (table : FileTable) (path : String) (text : Option String) : FileTable :=
  ⟨(path, text) :: (table.erase path).entries⟩

/-- The path of a file below a directory, relative to it. -/
def below? (directory : FilePath) (path : String) : Option String :=
  (Text.after? directory.textWithSlash.toList path.toList).map String.ofList

/-- The sorted paths of the files below a directory, relative to it. -/
def list (table : FileTable) (directory : FilePath) : List String :=
  (table.entries.filterMap fun (path, _) => below? directory path).mergeSort (· ≤ ·)

/-- The text of a file. -/
def read (table : FileTable) (path : FilePath) : Option String :=
  (table.entries.find? (·.1 = path.text)).bind (·.2)

/-- The table as a source. -/
def source (table : FileTable) : FileSource := ⟨table.list, table.read⟩

end FileTable

end EmberAssist
