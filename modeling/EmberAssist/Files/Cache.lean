import EmberAssist.Files.Source

/-! Answers about files that are kept until they are said to be out of date. -/
namespace EmberAssist

/-- What has been read: the listings of directories, and the texts of files, some of which could not
be read (`CachedFileSource`). -/
structure FileCache where
  listings : List (FilePath × List String)
  texts : List (FilePath × Option String)
deriving DecidableEq, Repr, Inhabited

namespace FileCache

/-- Nothing has been read. -/
def empty : FileCache := ⟨[], []⟩

/-- The listing of a directory, if it has been read. -/
def listing? (cache : FileCache) (directory : FilePath) : Option (List String) :=
  cache.listings.lookup directory

/-- The text of a file, if the file has been read or found unreadable. -/
def text? (cache : FileCache) (path : FilePath) : Option (Option String) :=
  cache.texts.lookup path

/-- Keeps the listing of a directory. -/
def keepListing (cache : FileCache) (directory : FilePath) (listing : List String) : FileCache :=
  { cache with listings := (directory, listing) :: cache.listings }

/-- Keeps the text of a file. -/
def keepText (cache : FileCache) (path : FilePath) (text : Option String) : FileCache :=
  { cache with texts := (path, text) :: cache.texts }

/-- Whether the listing of a directory depends on a path: it is the directory's own path, or one below
it. -/
def isListedIn (directory path : FilePath) : Bool :=
  directory == path || path.parents.contains directory

/-- Forgets what depends on a path that has changed. -/
def invalidate (cache : FileCache) (path : FilePath) : FileCache :=
  ⟨cache.listings.filter fun (directory, _) => !isListedIn directory path,
    cache.texts.filter fun (kept, _) => kept != path⟩

/-- Forgets what depends on paths that have changed (`invalidate`). -/
def invalidateAll (cache : FileCache) (paths : List FilePath) : FileCache :=
  paths.foldl invalidate cache

end FileCache

end EmberAssist
