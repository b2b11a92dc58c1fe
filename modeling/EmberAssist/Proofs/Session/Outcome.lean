import EmberAssist.Proofs.Project.Registry
import EmberAssist.Session.Complete

/-! How requests end, and the session that they leave, one equation for each of them. -/
namespace EmberAssist

open FileReader

variable {α β : Type} {session : Session}

namespace Request

/-- How a request ends, and the session that it leaves. -/
def outcome (request : Request α) (session : Session) : Except RequestFault α × Session :=
  request.run.run session

@[simp]
theorem outcome_pure (a : α) : outcome (pure a) session = (.ok a, session) := rfl

@[simp]
theorem outcome_get : outcome get session = (.ok session, session) := rfl

@[simp]
theorem outcome_modify (change : Session → Session) :
    outcome (modify change) session = (.ok (), change session) := rfl

theorem outcome_bind (request : Request α) (next : α → Request β) :
    outcome (request >>= next) session =
      match outcome request session with
      | (.ok a, later) => outcome (next a) later
      | (.error fault, later) => (.error fault, later) := by
  change (match outcome request session with
    | (a, later) => (ExceptT.bindCont next a : StateM Session (Except RequestFault β)) later) = _
  obtain ⟨_ | _, later⟩ := outcome request session <;> rfl

theorem outcome_bind_of_keeps {request : Request α} {next : α → Request β}
    (keeps : (outcome request session).2 = session) :
    outcome (request >>= next) session =
      match (outcome request session).1 with
      | .ok a => outcome (next a) session
      | .error fault => (.error fault, session) := by
  rw [outcome_bind]
  rcases ended : outcome request session with ⟨_ | _, later⟩
  all_goals
    rw [ended] at keeps
    obtain rfl : later = session := keeps
    rfl

/-- Two steps give an answer only if both do. -/
theorem bind_eq_ok {request : Request α} {next : α → Request β} {b : β} {after : Session}
    (ended : outcome (request >>= next) session = (.ok b, after)) :
    ∃ a middle, outcome request session = (.ok a, middle) ∧
      outcome (next a) middle = (.ok b, after) := by
  rw [outcome_bind] at ended
  split at ended
  · rename_i a middle first
    exact ⟨a, middle, first, ended⟩
  · cases ended

theorem bind_eq_ok_of_keeps {request : Request α} {next : α → Request β} {b : β} {after : Session}
    (keeps : (outcome request session).2 = session)
    (ended : outcome (request >>= next) session = (.ok b, after)) :
    ∃ a, (outcome request session).1 = .ok a ∧ outcome (next a) session = (.ok b, after) := by
  obtain ⟨a, middle, first, rest⟩ := bind_eq_ok ended
  rw [first] at keeps ⊢
  exact ⟨a, rfl, keeps ▸ rest⟩

/-- What relates a session to the one after each of two steps relates it to the one after both. -/
theorem related_bind {R : Session → Session → Prop} (trans : ∀ {a b c}, R a b → R b c → R a c)
    {request : Request α} {next : α → Request β} (first : R session (outcome request session).2)
    (later : ∀ a middle, outcome request session = (.ok a, middle) →
      R middle (outcome (next a) middle).2) :
    R session (outcome (request >>= next) session).2 := by
  rw [outcome_bind]
  rcases ended : outcome request session with ⟨fault | a, middle⟩
  all_goals rw [ended] at first
  · exact first
  · exact trans first (later a middle ended)

theorem related_bind_of_keeps {R : Session → Session → Prop} (refl : R session session)
    {request : Request α} {next : α → Request β} (keeps : (outcome request session).2 = session)
    (later : ∀ a, (outcome request session).1 = .ok a → R session (outcome (next a) session).2) :
    R session (outcome (request >>= next) session).2 := by
  rw [outcome_bind_of_keeps keeps]
  rcases ended : (outcome request session).1 with fault | a
  · exact refl
  · exact later a ended

theorem outcome_tryCatch (request : Request α) (handle : RequestFault → Request α) :
    outcome (tryCatch request handle) session =
      match outcome request session with
      | (.ok a, later) => (.ok a, later)
      | (.error fault, later) => outcome (handle fault) later := by
  unfold outcome
  rw [ExceptT.run_tryCatch, StateT.run_bind]
  obtain ⟨_ | _, later⟩ := request.run.run session <;> rfl

end Request

namespace Session

open Request

@[simp]
theorem outcome_readFiles (reader : FileReader α) : outcome (readFiles reader) session =
    (.ok (reader session.files).1, { session with files := (reader session.files).2 }) := rfl

theorem outcome_absolutePath (path : String) :
    outcome (absolutePath path) session = (.ok (session.workingDirectory / path), session) := rfl

theorem outcome_owner? (path : String) : outcome (owner? path) session =
    (.ok (session.registry.owner? (.ofString path)), session) := rfl

/-! ## Projects -/

theorem outcome_addProject (root : FilePath) : outcome (addProject root) session =
    let changed := session.registry.register session.readers.scripts root session.files
    (.ok changed.1.1, { session with files := changed.2, registry := changed.1.2 }) := rfl

theorem outcome_discover (path : String) : outcome (discover path) session =
    let changed := session.registry.discover session.readers.scripts session.settings.projectMarker
      (session.workingDirectory / path) session.files
    (.ok changed.1.1, { session with files := changed.2, registry := changed.1.2 }) := rfl

theorem outcome_projectFor_root (path root : String) : outcome (projectFor path (some root)) session =
    outcome (addProject (session.workingDirectory / root)) session := by
  unfold projectFor
  rw [outcome_bind, outcome_absolutePath]

theorem outcome_projectFor_none (path : String) : outcome (projectFor path none) session =
    let changed := session.registry.discover session.readers.scripts session.settings.projectMarker
      (session.workingDirectory / path) session.files
    ((match changed.1.1 with
      | some project => .ok project
      | none => .error (.noProject path)),
      { session with files := changed.2, registry := changed.1.2 }) := by
  unfold projectFor
  rw [outcome_bind, outcome_discover]
  simp only
  cases (session.registry.discover session.readers.scripts session.settings.projectMarker
    (session.workingDirectory / path) session.files).1.1 <;> rfl

theorem outcome_modulesOf (project : Project) : outcome (modulesOf project) session =
    let read := project.withModules session.files
    (.ok read.1.2,
      { session with files := read.2, registry := session.registry.replace read.1.1 }) := rfl

theorem outcome_refresh : outcome refresh session =
    let read := session.registry.refresh session.readers.scripts session.files.forget
    (.ok (), { session with files := read.2, registry := read.1 }) := rfl

/-! ## Documents -/

theorem outcome_withDocument (document : Document) (request : Request α) :
    outcome (withDocument document request) session =
      let ended := outcome request { session with documents := session.documents.insert document }
      (ended.1, { ended.2 with documents := ended.2.documents.close document.uri }) := by
  unfold withDocument
  rw [outcome_bind]
  simp only [openDocument, outcome_modify]
  rw [outcome_bind, outcome_tryCatch]
  cases ended : outcome request { session with documents := session.documents.insert document } with
  | mk answer later => cases answer <;> rfl

/-- What a completion is asked for in is looked up: the file of the document has a language and an owner,
and the document is open. -/
theorem outcome_target? (uri : String) : outcome (target? uri) session =
    ((match Uri.toFilePath? uri with
      | .error fault => .error (.host fault)
      | .ok none => .ok none
      | .ok (some path) =>
        .ok (match Language.ofPath? path, session.registry.owner? (.ofString path),
            session.documents.get? uri with
          | some language, some project, some document => some ⟨language, project, document⟩
          | _, _, _ => none)), session) := by
  unfold target?
  cases Uri.toFilePath? uri with
  | error fault => rfl
  | ok path =>
    cases path with
    | none => rfl
    | some path =>
      simp only
      rw [outcome_bind, outcome_owner?]
      simp only
      rw [outcome_bind, outcome_get]
      simp only
      cases Language.ofPath? path <;> cases session.registry.owner? (.ofString path) <;>
        cases session.documents.get? uri <;> rfl

/-- The project that is consulted for the document at a URI: the known one that owns its file. -/
def consulted? (session : Session) (uri : String) : Option Project :=
  match Uri.toFilePath? uri with
  | .ok (some path) => session.registry.owner? (.ofString path)
  | _ => none

/-- What is completed is asked for in the project that is consulted. -/
theorem consulted?_of_target? {uri : String} {target : Target}
    (found : (outcome (target? uri) session).1 = .ok (some target)) :
    session.consulted? uri = some target.project := by
  rw [outcome_target?] at found
  cases decoded : Uri.toFilePath? uri with
  | error fault => simp [decoded] at found
  | ok path =>
    cases path with
    | none => simp [decoded] at found
    | some path =>
      simp only [decoded] at found
      split at found
      · rename_i owned _
        cases found
        simp only [consulted?, decoded, owned]
      · cases found

/-- Where the project is that is consulted depends on the roots of the known projects alone. -/
theorem root_consulted? (uri : String) : (session.consulted? uri).map Project.root =
    match Uri.toFilePath? uri with
    | .ok (some path) => ProjectRegistry.deepestAround? (.ofString path) session.registry.roots
    | _ => none := by
  unfold consulted?
  rcases Uri.toFilePath? uri with fault | _ | path
  · rfl
  · rfl
  · exact ProjectRegistry.root_owner? _ _

theorem mem_of_consulted? {uri : String} {project : Project}
    (consulted : session.consulted? uri = some project) : project ∈ session.registry.projects := by
  unfold consulted? at consulted
  split at consulted
  · exact (ProjectRegistry.owner?_eq_some consulted).1
  · cases consulted

theorem outcome_focus? (document : Document) (p : Position) : outcome (focus? document p) session =
    ((match Template.focusAt session.readers.templates session.settings.placeholder document p with
      | .ok focus => .ok focus
      | .error error => .error (.template error)), session) := by
  unfold focus?
  rw [outcome_bind, outcome_get]
  simp only
  cases Template.focusAt session.readers.templates session.settings.placeholder document p <;> rfl

/-! ## Completion -/

theorem target?_keeps (uri : String) : (outcome (target? uri) session).2 = session := by
  rw [outcome_target?]

theorem focus?_keeps (document : Document) (p : Position) :
    (outcome (focus? document p) session).2 = session := by
  rw [outcome_focus?]

theorem outcome_typedKey? (target : Target) (p : Position) : outcome (typedKey? target p) session =
    (if target.language = .handlebars then
      match (outcome (focus? target.document p) session).1 with
      | .error fault => .error fault
      | .ok none => .ok none
      | .ok (some focus) =>
        match Completion.typedKeyAt? session.settings.placeholder target.document focus with
        | .ok key => .ok key
        | .error error => .error (.noSuchLine error)
    else .ok (Completion.scriptKey? session.readers.scripts target.language session.settings.placeholder
      target.document p), session) := by
  unfold typedKey?
  rw [outcome_bind, outcome_get]
  simp only
  split
  · rw [outcome_bind_of_keeps (focus?_keeps target.document p)]
    rcases (outcome (focus? target.document p) session).1 with fault | _ | focus
    · rfl
    · rfl
    · simp only
      cases Completion.typedKeyAt? session.settings.placeholder target.document focus <;> rfl
  · rfl

theorem typedKey?_keeps (target : Target) (p : Position) :
    (outcome (typedKey? target p) session).2 = session := by
  rw [outcome_typedKey?]

theorem outcome_phrasesOf (project : Project) : outcome (phrasesOf project) session =
    let read := (Phrase.readCatalogue session.readers.phrases project.root
      session.settings.phrasesDirectory).run session.files
    ((match read.1 with
      | .ok catalogue => .ok catalogue
      | .error fault => .error (.phrase fault)), { session with files := read.2 }) := by
  unfold phrasesOf
  rw [outcome_bind, outcome_get]
  simp only
  rw [outcome_bind, outcome_readFiles]
  simp only
  cases ((Phrase.readCatalogue session.readers.phrases project.root
    session.settings.phrasesDirectory).run session.files).1 <;> rfl

/-! ## Requests for files -/

theorem outcome_textFor (path : FilePath) (text : Option String) :
    outcome (textFor path text) session =
      match text with
      | some text => (.ok text, session)
      | none =>
        ((match (session.files.read path).1 with
          | some text => .ok text
          | none => .error (.unreadable path.text)),
          { session with files := (session.files.read path).2 }) := by
  unfold textFor
  cases text with
  | some text => rfl
  | none =>
    simp only
    rw [outcome_bind, outcome_readFiles]
    simp only [readText]
    cases (session.files.read path).1 <;> rfl

end Session

end EmberAssist
