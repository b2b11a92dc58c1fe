import EmberAssist.Files.Access
import EmberAssist.Layout.Classifier
import EmberAssist.Script.Lookup

/-! The layout of a project, told by the environment that it configures. -/
namespace EmberAssist.Layout

open Text

variable (scripts : Script.Reader)

/-- The file in which a project configures its environment. -/
def environmentFile (root : FilePath) : FilePath := root / "config" / "environment.js"

/-- The prefix of pods that the source of an environment configures (`find_pod_module_prefix`). -/
def configuredPrefix? (source : String) : Option (List Char) :=
  Script.podPrefix? (scripts.tree .javascript source.toList)

/-- The last segment of a prefix, unless the prefix is blank. -/
def lastSegment? (configured : List Char) : Option (List Char) :=
  let trimmed := trim isBlank configured
  if trimmed.isEmpty then none else (splitOn '/' trimmed).getLast?

/-- The directory of pods that the source of an environment configures. -/
def podDirectory? (source : String) : Option (List Char) :=
  (configuredPrefix? scripts source).bind lastSegment?

/-- The layout of the project at a root with the source of its environment, if there is one. -/
def ofEnvironment (root : String) (source : Option String) : ProjectLayout :=
  let written := String.ofList (withSlashes root.toList)
  match source.bind (podDirectory? scripts) with
  | some (c :: rest) => ⟨written, "app/" ++ String.ofList (c :: rest)⟩
  | _ => ⟨written, defaultPodPrefix⟩

/-- Reads the directory of pods that a project configures (`detect_pod_module_prefix`). -/
def readPodDirectory (root : FilePath) : FileReader (Option (List Char)) := do
  return (← readText (environmentFile root)).bind (podDirectory? scripts)

/-- Reads the layout of the project at a root (`layout_for_root`). -/
def readLayout (root : String) : FileReader ProjectLayout := do
  return ofEnvironment scripts root (← readText (environmentFile (.ofString root)))

end EmberAssist.Layout
