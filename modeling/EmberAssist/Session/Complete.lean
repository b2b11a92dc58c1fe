import EmberAssist.Completion.Gather
import EmberAssist.Completion.Ranking
import EmberAssist.Completion.PhraseKey
import EmberAssist.Session.Basic

/-! Completing names and phrase keys in a session. -/
namespace EmberAssist.Session

open Completion

/-- What a completion is asked for in: a document of a known project. -/
structure Target where
  language : Language
  project : Project
  document : Document

/-- What a completion is asked for in, if the document is open and a known project owns its file. -/
def target? (uri : String) : Request (Option Target) := do
  match Uri.toFilePath? uri with
  | .error fault => throw (.host fault)
  | .ok none => return none
  | .ok (some path) =>
    match Language.ofPath? path, ← owner? path, (← get).documents.get? uri with
    | some language, some project, some document => return some ⟨language, project, document⟩
    | _, _, _ => return none

/-- The trail to what is under the cursor of a template. -/
def focus? (document : Document) (p : Position) : Request (Option (Template.Trail (Template.Node Range))) := do
  let session ← get
  match Template.focusAt session.readers.templates session.settings.placeholder document p with
  | .ok focus => return focus
  | .error error => throw (.template error)

/-- All candidates of a project in a context. Its modules are collected where routes are offered. -/
def gatherFrom (project : Project) (context : Template.Context) : Request (List Candidate) := do
  let modules ← if context = .link then modulesOf project else pure []
  readFiles (gather context project.root modules)

/-- The candidates for a name in a template (`TemplateCompletionProvider.provide_completions`). -/
def completeName (uri : String) (p : Position) : Request (List Candidate) := do
  match ← target? uri with
  | some ⟨.handlebars, project, document⟩ =>
    match ← focus? document p with
    | none => return []
    | some focus =>
      if focus.context = .none then return []
      else
        let candidates ← gatherFrom project focus.context
        let query := Template.typedText (← get).settings.placeholder focus
        return rank Candidate.label query candidates
  | _ => return []

/-- The phrase key that is being typed. -/
def typedKey? (target : Target) (p : Position) : Request (Option TypedKey) := do
  let session ← get
  let placeholder := session.settings.placeholder
  if target.language = .handlebars then
    match ← focus? target.document p with
    | none => return none
    | some focus =>
      match typedKeyAt? placeholder target.document focus with
      | .ok key => return key
      | .error error => throw (.noSuchLine error)
  else return scriptKey? session.readers.scripts target.language placeholder target.document p

/-- Reads the phrases of a project. -/
def phrasesOf (project : Project) : Request Phrase.Catalogue := do
  let session ← get
  let directory := session.settings.phrasesDirectory
  match ← readFiles (Phrase.readCatalogue session.readers.phrases project.root directory).run with
  | .ok catalogue => return catalogue
  | .error fault => throw (.phrase fault)

/-- The candidates for a phrase key in a template or a script
(`IntlCompletionProvider.provide_completions`). -/
def completePhrase (uri : String) (p : Position) : Request (List Candidate) := do
  match ← target? uri with
  | none => return []
  | some target =>
    match ← typedKey? target p with
    | none => return []
    | some key => return keyCandidates (← phrasesOf target.project) key

/-- The candidates for what is under the cursor of an open document
(`CompletionEngine.provide_completions`). -/
def provide (uri : String) (p : Position) : Request (List Candidate) := do
  return (← completeName uri p) ++ (← completePhrase uri p)

/-- The text to complete in: the one that is given, or else that of the file. -/
def textFor (path : FilePath) (text : Option String) : Request String := do
  match text with
  | some text => return text
  | none =>
    match ← readFiles (readText path) with
    | some text => return text
    | none => throw (.unreadable path.text)

/-- The candidates for what is under the cursor of a file, which has another text than on disk if one
is given. -/
def complete (path : String) (p : Position) (text : Option String) (root : Option String) :
    Request (List Candidate) := do
  let path ← absolutePath path
  let _ ← projectFor path.text root
  let text ← textFor path text
  let uri := Uri.ofFilePath path
  withDocument ⟨uri, text.toList, 0⟩ (provide uri p)

/-- The module of a path. -/
def classify (path : String) (root : Option String) : Request (Option AppModule) := do
  let path ← absolutePath path
  return (← projectFor path.text root).classify path.text

/-- The modules of the project at a root, all of them or those of one kind. -/
def modules (root : String) (kind : Option ModuleKind) : Request (List AppModule) := do
  let found ← modulesOf (← addProject (← absolutePath root))
  match kind with
  | none => return found
  | some kind => return found.filter (·.kind = kind)

end EmberAssist.Session
