import EmberAssist.Project.Basic

/-! The projects that are known. -/
namespace EmberAssist

/-- Known projects in the order in which they became known (`ProjectRoots`). No two have the same root.
-/
@[ext]
structure ProjectRegistry where
  projects : List Project
  distinct : (projects.map Project.root).Nodup
deriving DecidableEq, Repr

namespace ProjectRegistry

/-- No project is known. -/
def empty : ProjectRegistry := ⟨[], List.nodup_nil⟩

instance : Inhabited ProjectRegistry := ⟨empty⟩

/-- The roots of the known projects. -/
def roots (registry : ProjectRegistry) : List FilePath := registry.projects.map Project.root

/-- The project with a root. -/
def get? (registry : ProjectRegistry) (root : FilePath) : Option Project :=
  registry.projects.find? (·.root == root)

/-- Among others a project keeps its root if one with the same root comes in its place. -/
theorem map_root_replace (projects : List Project) (project : Project) :
    (projects.map fun known => if known.root == project.root then project else known).map Project.root =
      projects.map Project.root := by
  rw [List.map_map]
  refine List.map_congr_left fun known _ => ?_
  rw [Function.comp_apply]
  split
  · rename_i same
    exact (eq_of_beq same).symm
  · rfl

/-- Puts a project in the place of the one with the same root. -/
def replace (registry : ProjectRegistry) (project : Project) : ProjectRegistry where
  projects := registry.projects.map fun known => if known.root == project.root then project else known
  distinct := by
    rw [map_root_replace]
    exact registry.distinct

theorem nodup_roots_concat {registry : ProjectRegistry} {project : Project}
    (new : project.root ∉ registry.roots) : ((registry.projects ++ [project]).map Project.root).Nodup := by
  rw [List.map_append, List.map_singleton, List.nodup_append]
  refine ⟨registry.distinct, by simp, fun root known other single same => new ?_⟩
  rw [← List.mem_singleton.mp single, ← same]
  exact known

/-- Makes a project known behind all others. If there is one with the same root, it takes the place of that
one. -/
def insert (registry : ProjectRegistry) (project : Project) : ProjectRegistry :=
  if new : project.root ∉ registry.roots then ⟨registry.projects ++ [project], nodup_roots_concat new⟩
  else registry.replace project

/-- The project at a root, which becomes known (`add_project`). -/
def register (registry : ProjectRegistry) (scripts : Script.Reader) (root : FilePath) :
    FileReader (Project × ProjectRegistry) := do
  match registry.get? root with
  | some project => return (project, registry)
  | none =>
    let project ← Project.readAt scripts root
    return (project, registry.insert project)

/-- Whether a path is a root or below it. -/
def isInside (root path : FilePath) : Bool :=
  path == root || Text.startsWith path.text.toList root.textWithSlash.toList

/-- Of two projects the one with the longer root, and the first of them if neither is longer. -/
def deeper (best : Option Project) (project : Project) : Option Project :=
  match best with
  | none => some project
  | some other =>
    if other.root.text.length < project.root.text.length then some project else some other

/-- The project that owns a path: of those that it is inside of, the one with the longest root
(`project_for_path`). -/
def owner? (registry : ProjectRegistry) (path : FilePath) : Option Project :=
  (registry.projects.filter fun project => isInside project.root path).foldl deeper none

/-- The nearest of several directories that holds the marker of a project. -/
def nearestMarked? (marker : String) : List FilePath → FileReader (Option FilePath)
  | [] => return none
  | directory :: directories => do
    match ← readText (directory / marker) with
    | some _ => return some directory
    | none => nearestMarked? marker directories

/-- The project of an absolute path: the one that owns it, or else the one at the nearest directory above
it that holds the marker of a project, which becomes known. -/
def discover (registry : ProjectRegistry) (scripts : Script.Reader) (marker : String)
    (path : FilePath) : FileReader (Option Project × ProjectRegistry) := do
  match registry.owner? path with
  | some project => return (some project, registry)
  | none =>
    match ← nearestMarked? marker path.parents with
    | some directory =>
      let (project, registry) ← registry.register scripts directory
      return (some project, registry)
    | none => return (none, registry)

/-- Reads the layout of the project at a root again and forgets its modules (`Project.refresh`). -/
def refreshAt (scripts : Script.Reader) (registry : ProjectRegistry) (root : FilePath) :
    FileReader ProjectRegistry := do
  return registry.replace (← Project.readAt scripts root)

/-- Reads the layouts of all projects again and forgets their modules. -/
def refresh (registry : ProjectRegistry) (scripts : Script.Reader) : FileReader ProjectRegistry :=
  registry.roots.foldlM (refreshAt scripts) registry

end ProjectRegistry

end EmberAssist
