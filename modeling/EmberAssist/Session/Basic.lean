import EmberAssist.Completion.Candidate
import EmberAssist.Data.Fault
import EmberAssist.Document.Store
import EmberAssist.Document.Uri
import EmberAssist.Project.Registry
import EmberAssist.Readers
import EmberAssist.Settings

/-! A session: the documents that are open, the projects that are known, and the files they are read
from. Requests are answered from these and may change them, also when they fail. -/
namespace EmberAssist

/-- The state of a session (`CompletionSession`). -/
structure Session where
  settings : Settings
  /-- The directory that relative paths start from. -/
  workingDirectory : FilePath
  readers : Readers
  files : FileAccess
  documents : DocumentStore
  registry : ProjectRegistry

/-- Why a request fails. -/
inductive RequestFault where
  | noProject (path : String)
  | unreadable (path : String)
  | template (error : Template.SyntaxError)
  | phrase (fault : Data.ValueFault)
  | host (fault : Uri.HostFault)
  | noSuchLine (error : NoSuchLine)
deriving DecidableEq, Repr

/-- The wording of a fault. -/
def RequestFault.message : RequestFault → String
  | noProject path => "No project found for " ++ path
  | unreadable path => "Cannot read " ++ path
  | template error => error.message
  | phrase fault => fault.message
  | host fault => fault.message
  | noSuchLine _ => "list index out of range"

/-- A request. The session goes on from the state in which the request ends, even if it fails. -/
abbrev Request := ExceptT RequestFault (StateM Session)

namespace Session

/-- A session that has not been used. -/
def start (readers : Readers) (settings : Settings) (files : FileAccess) : Session :=
  ⟨settings, .top .root, readers, files, .empty, .empty⟩

/-- Reads files in a request. -/
def readFiles {α : Type} (read : FileReader α) : Request α :=
  modifyGet fun session =>
    let (answer, files) := read session.files
    (answer, { session with files })

/-- Changes the known projects in a request. -/
def withRegistry {α : Type} (change : ProjectRegistry → FileReader (α × ProjectRegistry)) :
    Request α := do
  let (answer, registry) ← readFiles (change (← get).registry)
  modify fun session => { session with registry }
  return answer

/-- The absolute path of a path that is written out. -/
def absolutePath (path : String) : Request FilePath := do
  return (← get).workingDirectory / path

/-- The project at a root, which becomes known (`add_project`). -/
def addProject (root : FilePath) : Request Project := do
  let scripts := (← get).readers.scripts
  withRegistry fun registry => registry.register scripts root

/-- The project of a path, which may become known. -/
def discover (path : String) : Request (Option Project) := do
  let absolute ← absolutePath path
  let session ← get
  withRegistry fun registry =>
    registry.discover session.readers.scripts session.settings.projectMarker absolute

/-- The known project that owns a path (`project_for_path`). -/
def owner? (path : String) : Request (Option Project) := do
  return (← get).registry.owner? (.ofString path)

/-- The project to answer from: the one at a root if a root is given, and else that of a path
(`project_for`). -/
def projectFor (path : String) (root : Option String) : Request Project := do
  match root with
  | some root => addProject (← absolutePath root)
  | none =>
    match ← discover path with
    | some project => return project
    | none => throw (.noProject path)

/-- The modules of a known project. They are collected if they have not been before. -/
def modulesOf (project : Project) : Request (List AppModule) := do
  let (project, modules) ← readFiles project.withModules
  modify fun session => { session with registry := session.registry.replace project }
  return modules

/-- Forgets all that has been read, and reads the layouts of the known projects again. -/
def refresh : Request Unit := do
  modify fun session => { session with files := session.files.forget }
  let scripts := (← get).readers.scripts
  withRegistry fun registry => do return ((), ← registry.refresh scripts)

/-- Forgets what depends on files that have changed, and reads the layout of a project again
(`project_refresher`). -/
def refreshAfter (root : FilePath) (changed : List FilePath) : Request Unit := do
  modify fun session => { session with files := session.files.invalidate changed }
  let scripts := (← get).readers.scripts
  withRegistry fun registry => do return ((), ← registry.refreshAt scripts root)

/-- Opens a document. -/
def openDocument (document : Document) : Request Unit :=
  modify fun session => { session with documents := session.documents.insert document }

/-- Closes a document. -/
def closeDocument (uri : String) : Request Unit :=
  modify fun session => { session with documents := session.documents.close uri }

/-- Makes a request while a document is open, and closes the document even if the request fails. -/
def withDocument {α : Type} (document : Document) (request : Request α) : Request α := do
  openDocument document
  let answer ← tryCatch request fun fault => do
    closeDocument document.uri
    throw fault
  closeDocument document.uri
  return answer

end Session

end EmberAssist
