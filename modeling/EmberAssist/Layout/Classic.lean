import EmberAssist.Layout.Basic

/-! The classic layout, which has a directory for each kind of module. -/
namespace EmberAssist.Layout

open Text

/-- The directories of the classic layout (`_CLASSIC_DIRECTORIES`). One that is listed earlier goes
before later ones. -/
def classicDirectories : List (List String × ModuleKind) := [
  (["templates", "components"], .component),
  (["components"], .component),
  (["templates"], .template),
  (["routes"], .route),
  (["controllers"], .controller),
  (["helpers"], .helper),
  (["modifiers"], .modifier),
  (["services"], .service),
  (["models"], .model),
  (["adapters"], .adapter),
  (["serializers"], .serializer),
  (["transforms"], .transform),
  (["utils"], .util)]

/-- The segments behind a directory that others begin with, if there are any. -/
def behindDirectory? (directory : List String) (segments : List (List Char)) :
    Option (List (List Char)) :=
  if startsWith segments (directory.map String.toList) && directory.length < segments.length then
    some (segments.drop directory.length)
  else none

/-- The module in the first directory of the classic layout on a path. -/
def moduleOfSegments? : List (List Char) → Option AppModule
  | [] => none
  | segment :: rest =>
    let found := classicDirectories.findSome? fun (directory, kind) =>
      (behindDirectory? directory (segment :: rest)).map fun behind =>
        ⟨(FilePath.splitExtension (join ['/'] behind)).1, kind⟩
    found.or (moduleOfSegments? rest)

/-- The module of a path in the classic layout (`ClassicPathMatcher.meta_from_path`). Files that are
named after a role belong to the pod layout. -/
def classicModule? (root path : List Char) : Option AppModule :=
  let path := relativeTo (trimRoot root) path
  let (stem, extension) := FilePath.splitExtension (FilePath.splitLast path).2
  if isIgnored path || !moduleExtensions.contains extension || (roleKind? stem).isSome then none
  else (belowSourceRoot? path).bind fun rest => moduleOfSegments? (splitOn '/' rest)

end EmberAssist.Layout
