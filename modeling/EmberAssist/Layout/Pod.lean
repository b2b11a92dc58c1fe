import EmberAssist.Layout.Basic

/-! The pod layout, which has a directory for each feature and in it a file for each role. -/
namespace EmberAssist.Layout

open Text

/-- The directory of components. -/
def componentsDirectory : List Char := "components/".toList

/-- The directory that a path leads to, without slashes behind it unless it is made of slashes. -/
def directoryOf (path : List Char) : List Char :=
  let directory := (FilePath.splitLast path).1
  if directory.all (· == '/') then directory else trimEnd (· == '/') directory

/-- What a pod is named by: the part of its directory behind the prefix of pods, or else behind the
directory that sources are in. -/
def podName? (podPrefix directory : List Char) : Option (List Char) :=
  let marker := '/' :: trim (· == '/') podPrefix ++ ['/']
  match find? marker directory with
  | some index => some (directory.drop (index + marker.length))
  | none => belowSourceRoot? directory

/-- The module of a path in the pod layout (`PodMatcher.meta_from_path`). A template of a component is
part of the component. -/
def podModule? (root podPrefix path : List Char) : Option AppModule := do
  let path := relativeTo (trimRoot root) path
  let (stem, extension) := FilePath.splitExtension (FilePath.splitLast path).2
  let kind ← roleKind? stem
  if isIgnored path || !moduleExtensions.contains extension then none
  else
    let name := trimEnd (· == '/') (← podName? podPrefix (directoryOf path ++ ['/']))
    let (name, kind) :=
      if startsWith name componentsDirectory then
        (name.drop componentsDirectory.length, if kind = .template then .component else kind)
      else (name, kind)
    if name.isEmpty then none else some ⟨name, kind⟩

end EmberAssist.Layout
