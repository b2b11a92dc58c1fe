import EmberAssist.AppModule
import EmberAssist.FilePath
import EmberAssist.Text.Blank

/-! How the files of a project are laid out: which files are modules at all, and which part of a path
names one. Paths are written out here, and backslashes count as slashes. -/
namespace EmberAssist.Layout

open Text

/-- A path with slashes for backslashes (`_normalize`). -/
def withSlashes (path : List Char) : List Char := path.map fun c => if c = '\\' then '/' else c

/-- The root of a project as paths below it begin with it. -/
def trimRoot (root : List Char) : List Char := trimEnd (· == '/') (withSlashes root)

/-- A path with a slash in front. -/
def withLeadingSlash (path : List Char) : List Char :=
  if startsWith path ['/'] then path else '/' :: path

/-- A path below the root of a project, which begins with a slash (`_relative_to_root`). Other paths
are kept whole. -/
def relativeTo (root path : List Char) : List Char :=
  let path := withSlashes path
  if !root.isEmpty && startsWith path (root ++ ['/']) then withLeadingSlash (path.drop root.length)
  else withLeadingSlash path

/-- The extensions of scripts and templates (`_EXTENSIONS`). -/
def moduleExtensions : List (List Char) := [".js".toList, ".ts".toList, ".hbs".toList]

/-- Directories of files that are installed, built or thrown away. -/
def ignoredSegments : List (List Char) :=
  ["/node_modules/".toList, "/tmp/".toList, "/dist/".toList, "/.git/".toList]

/-- Whether a path leads through an ignored directory (`_is_ignored`). -/
def isIgnored (path : List Char) : Bool := ignoredSegments.any (occursIn · path)

/-- The directories that sources are in. -/
def sourceRoots : List (List Char) := ["/app/".toList, "/addon/".toList]

/-- The part of a path behind the first of the directories that sources are in (`_split_source_root`).
-/
def belowSourceRoot? (path : List Char) : Option (List Char) :=
  let found := sourceRoots.filterMap fun marker =>
    (find? marker path).map fun index => (index, path.drop (index + marker.length))
  match found with
  | [] => none
  | [(_, rest)] => some rest
  | (index, rest) :: (index', rest') :: _ => some (if index < index' then rest else rest')

/-- The kind of a module that is named after its role; utilities have none (`_POD_ROLES`). -/
def roleKind? (stem : List Char) : Option ModuleKind :=
  match ModuleKind.ofName? (String.ofList stem) with
  | some .util => none
  | kind => kind

end EmberAssist.Layout
