import EmberAssist.Layout.PodPrefix

/-! A project: where it is, how it is laid out, and its modules once they have been asked for. -/
namespace EmberAssist

/-- A project. -/
structure Project where
  root : FilePath
  layout : ProjectLayout
  /-- What tells the modules of single paths. -/
  classifier : PathClassifier
  /-- The modules, if they have been collected since the layout was read. -/
  modules : Option (List AppModule)
deriving DecidableEq, Repr, Inhabited

namespace Project

/-- Reads the layout of the project at a root. Its modules are collected when they are asked for. -/
def readAt (scripts : Script.Reader) (root : FilePath) : FileReader Project := do
  let layout ← Layout.readLayout scripts root.text
  return ⟨root, layout, ⟨layout⟩, none⟩

/-- The directories that hold modules. -/
def sourceDirectories : List String := ["app", "addon"]

/-- The modules among files below a source directory. -/
def modulesIn (layout : ProjectLayout) (directory : String) (files : List String) : List AppModule :=
  files.filterMap fun file => layout.classify (layout.root ++ "/" ++ directory ++ "/" ++ file)

/-- Collects the modules of a project with a layout (`build_module_index`). -/
def collectModules (layout : ProjectLayout) : FileReader (List AppModule) := do
  let collected ← sourceDirectories.mapM fun directory => do
    return modulesIn layout directory (← listFiles (FilePath.ofString layout.root / directory))
  return collected.flatten

/-- The project with its modules, which are collected if they have not been before (`index`). -/
def withModules (project : Project) : FileReader (Project × List AppModule) := do
  match project.modules with
  | some modules => return (project, modules)
  | none =>
    let modules ← collectModules project.layout
    return ({ project with modules }, modules)

/-- The module of a path in a project (`match_path_to_type`). -/
def classify (project : Project) (path : String) : Option AppModule :=
  project.classifier.classify path

end Project

end EmberAssist
