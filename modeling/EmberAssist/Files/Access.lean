import EmberAssist.Files.Cache

/-! Reading files, through a cache or without one. -/
namespace EmberAssist

/-- How files are read: where from, what is kept of it, and how many questions have reached the
source. -/
structure FileAccess where
  source : FileSource
  cache : Option FileCache
  listCalls : Nat
  readCalls : Nat

/-- A computation that reads files. -/
abbrev FileReader := StateM FileAccess

namespace FileAccess

/-- Reading without a cache. -/
def direct (source : FileSource) : FileAccess := ⟨source, none, 0, 0⟩

/-- Reading through a cache that is empty. -/
def cached (source : FileSource) : FileAccess := ⟨source, some .empty, 0, 0⟩

/-- Lists the files below a directory (`list_files`). -/
def list (access : FileAccess) (directory : FilePath) : List String × FileAccess :=
  match access.cache.bind (·.listing? directory) with
  | some listing => (listing, access)
  | none =>
    let listing := access.source.list directory
    (listing, { access with
      cache := access.cache.map (·.keepListing directory listing)
      listCalls := access.listCalls + 1 })

/-- Reads the text of a file (`read_text`). -/
def read (access : FileAccess) (path : FilePath) : Option String × FileAccess :=
  match access.cache.bind (·.text? path) with
  | some text => (text, access)
  | none =>
    let text := access.source.read path
    (text, { access with
      cache := access.cache.map (·.keepText path text)
      readCalls := access.readCalls + 1 })

/-- Forgets what depends on paths that have changed. -/
def invalidate (access : FileAccess) (paths : List FilePath) : FileAccess :=
  { access with cache := access.cache.map (·.invalidateAll paths) }

/-- Forgets everything that has been read. -/
def forget (access : FileAccess) : FileAccess :=
  { access with cache := access.cache.map fun _ => .empty }

end FileAccess

/-- Lists the files below a directory. -/
def listFiles (directory : FilePath) : FileReader (List String) :=
  fun access => access.list directory

/-- Reads the text of a file. -/
def readText (path : FilePath) : FileReader (Option String) := fun access => access.read path

end EmberAssist
