import EmberAssist.CommandLine.Report
import EmberAssist.Files.Tree
import EmberAssist.Files.Watch
import EmberAssist.Project.Basic

/-! The modules of a project on show, and shown again when files change. -/
namespace EmberAssist.CommandLine

/-- A project whose modules are on show, all of them or those of one kind. -/
structure IndexView where
  scripts : Script.Reader
  project : Project
  files : FileAccess
  kind : Option ModuleKind

namespace IndexView

/-- The view of the project at a root. -/
def start (scripts : Script.Reader) (source : FileSource) (root : FilePath) (kind : Option ModuleKind) :
    IndexView :=
  let (project, files) := Project.readAt scripts root (.cached source)
  ⟨scripts, project, files, kind⟩

/-- Shows the modules (`_render_index`). -/
def render (view : IndexView) : Option (List Char) × IndexView :=
  let ((project, modules), files) := view.project.withModules view.files
  let shown :=
    match view.kind with
    | none => modules
    | some kind => modules.filter (·.kind = kind)
  (moduleTable? shown, { view with project, files })

/-- Forgets what depends on files that have changed and reads the layout of the project again, if any of
the files matters (`refresh`). -/
def heed (view : IndexView) (changed : List FilePath) : IndexView :=
  match Watch.relevant changed with
  | [] => view
  | relevant =>
    let (project, files) := Project.readAt view.scripts view.project.root (view.files.invalidate relevant)
    { view with project, files }

/-- Shows the modules again after files have changed, if any of them matters (`on_change`). -/
def follow (view : IndexView) (source : FileSource) (changed : List FilePath) :
    List Char × IndexView :=
  let view := { view with files := { view.files with source } }
  match Watch.relevant changed with
  | [] => ([], view)
  | _ =>
    let (shown, view) := (view.heed changed).render
    (shown.getD [], view)

/-- Shows the modules after each of several changes. -/
def followAll (view : IndexView) : List (FileSource × List FilePath) → List Char
  | [] => []
  | (source, changed) :: rest =>
    let (shown, view) := view.follow source changed
    shown ++ followAll view rest

end IndexView

end EmberAssist.CommandLine
