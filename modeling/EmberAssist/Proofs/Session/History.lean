import EmberAssist.Proofs.Session.Effect

/-! What can happen to a session, and what every request keeps: settings, readers and source stay as they are,
no document stays open, and what is known goes on being what the source tells. -/
namespace EmberAssist

open FileReader Request

/-- What happens to a session: it is asked for something, or its files become others. -/
inductive Event where
  | call (call : Call)
  | change (source : FileSource)

namespace Session

variable {α β : Type} {session before middle after : Session}

/-- The session after something has happened. -/
def next (session : Session) : Event → Session
  | .call call => (outcome call.request session).2
  | .change source => { session with files := { session.files with source } }

/-- The session after all that has happened. -/
def afterAll (session : Session) (events : List Event) : Session := events.foldl next session

/-- A session that has not been used, with a cache or without one. -/
structure IsUnused (session : Session) : Prop where
  cache : session.files.cache = none ∨ session.files.cache = some .empty
  documents : session.documents = .empty
  registry : session.registry = .empty

/-- All that is kept of the files and known of the projects is what the source tells. -/
structure IsCurrent (session : Session) : Prop where
  files : session.files.Reflects .everything
  registry : session.registry.IsCurrent session.readers.scripts session.files.source

theorem IsUnused.isCurrent (unused : session.IsUnused) : session.IsCurrent where
  files := unused.cache.elim FileAccess.reflects_of_no_cache FileAccess.reflects_of_empty
  registry := by simp [unused.registry, ProjectRegistry.empty, ProjectRegistry.IsCurrent]

/-! ## What a request keeps -/

/-- How a session may differ from an earlier one when it has answered: in what it keeps of the files and
knows of the projects. -/
structure Follows (before after : Session) : Prop where
  settings : after.settings = before.settings
  workingDirectory : after.workingDirectory = before.workingDirectory
  readers : after.readers = before.readers
  documents : after.documents = before.documents
  source : after.files.source = before.files.source
  current : before.IsCurrent → after.IsCurrent

/-- The same when no project has become known. -/
structure Keeps (before after : Session) : Prop extends Follows before after where
  roots : after.registry.roots = before.registry.roots

theorem Follows.refl (session : Session) : Follows session session :=
  ⟨rfl, rfl, rfl, rfl, rfl, id⟩

theorem Follows.trans (first : Follows before middle) (second : Follows middle after) :
    Follows before after where
  settings := second.settings.trans first.settings
  workingDirectory := second.workingDirectory.trans first.workingDirectory
  readers := second.readers.trans first.readers
  documents := second.documents.trans first.documents
  source := second.source.trans first.source
  current := second.current ∘ first.current

theorem Keeps.refl (session : Session) : Keeps session session := ⟨.refl session, rfl⟩

theorem Keeps.trans (first : Keeps before middle) (second : Keeps middle after) : Keeps before after :=
  ⟨first.toFollows.trans second.toFollows, second.roots.trans first.roots⟩

theorem keeps_readFiles {reader : FileReader α} (steady : Steady .everything reader) :
    Keeps session (outcome (readFiles reader) session).2 where
  settings := rfl
  workingDirectory := rfl
  readers := rfl
  documents := rfl
  source := steady.source _
  roots := rfl
  current current := ⟨steady.reflects current.files, by
    change session.registry.IsCurrent session.readers.scripts (reader session.files).2.source
    rw [steady.source]
    exact current.registry⟩

/-! ## Projects -/

theorem follows_addProject (root : FilePath) :
    Follows session (outcome (addProject root) session).2 where
  settings := rfl
  workingDirectory := rfl
  readers := rfl
  documents := rfl
  source := ProjectRegistry.steady_register.source _
  current current := by
    have steady : Steady .everything (session.registry.register session.readers.scripts root) :=
      ProjectRegistry.steady_register
    refine ⟨steady.reflects current.files, ?_⟩
    simp only [outcome_addProject]
    rw [steady.source, steady.answer current.files]
    exact (current.registry.register root).2

theorem follows_discover (path : String) : Follows session (outcome (discover path) session).2 where
  settings := rfl
  workingDirectory := rfl
  readers := rfl
  documents := rfl
  source := ProjectRegistry.steady_discover.source _
  current current := by
    have steady : Steady .everything (session.registry.discover session.readers.scripts
        session.settings.projectMarker (session.workingDirectory / path)) :=
      ProjectRegistry.steady_discover
    refine ⟨steady.reflects current.files, ?_⟩
    simp only [outcome_discover]
    rw [steady.source, steady.answer current.files]
    exact current.registry.discover _ _

theorem keeps_modulesOf {project : Project}
    (known : session.IsCurrent → project.IsCurrent session.readers.scripts session.files.source) :
    Keeps session (outcome (modulesOf project) session).2 where
  settings := rfl
  workingDirectory := rfl
  readers := rfl
  documents := rfl
  source := (Project.steady_withModules_everything project).source _
  roots := ProjectRegistry.roots_replace
  current current := by
    have steady := Project.steady_withModules_everything project
    refine ⟨steady.reflects current.files, ?_⟩
    simp only [outcome_modulesOf]
    rw [steady.source, steady.answer current.files]
    exact current.registry.replace (known current).withModules

/-- All is forgotten, and the known projects are read again at their roots. -/
theorem projects_refresh : (outcome refresh session).2.registry.projects =
    session.registry.roots.map fun root =>
      (Project.readAt session.readers.scripts root).told session.files.source := by
  have steady : Steady .everything (session.registry.refresh session.readers.scripts) :=
    ProjectRegistry.steady_refresh
  simp only [outcome_refresh]
  rw [steady.answer FileAccess.reflects_forget, ProjectRegistry.told_refresh]
  rfl

theorem isCurrent_refresh : (outcome refresh session).2.IsCurrent := by
  have steady : Steady .everything (session.registry.refresh session.readers.scripts) :=
    ProjectRegistry.steady_refresh
  refine ⟨steady.reflects FileAccess.reflects_forget, ?_⟩
  have unchanged : (outcome refresh session).2.files.source = session.files.source := steady.source _
  rw [unchanged]
  intro project member
  rw [projects_refresh] at member
  obtain ⟨root, -, rfl⟩ := List.mem_map.mp member
  exact Project.isCurrent_readAt session.readers.scripts root _

theorem roots_refresh : (outcome refresh session).2.registry.roots = session.registry.roots := by
  have root_readAt (root : FilePath) :
      ((Project.readAt session.readers.scripts root).told session.files.source).root = root := rfl
  simp [ProjectRegistry.roots, projects_refresh, Function.comp_def, root_readAt]

theorem keeps_refresh : Keeps session (outcome refresh session).2 where
  settings := rfl
  workingDirectory := rfl
  readers := rfl
  documents := rfl
  source := ProjectRegistry.steady_refresh.source _
  roots := roots_refresh
  current _ := isCurrent_refresh

/-! ## Calls -/

theorem follows_effect : Effect Keeps Follows where
  refl := .refl
  trans := .trans
  weaken keeps := keeps.toFollows
  behind first later := first.trans later.toFollows
  documents follows := follows.documents
  reads := keeps_readFiles
  collects known := keeps_modulesOf fun current => current.registry _ known
  registers := follows_addProject
  discovers := follows_discover
  opens kept := {
    settings := kept.settings
    workingDirectory := kept.workingDirectory
    readers := kept.readers
    documents := rfl
    source := kept.source
    roots := kept.roots
    current := fun current => ⟨(kept.current ⟨current.files, current.registry⟩).files,
      (kept.current ⟨current.files, current.registry⟩).registry⟩ }

/-- A call on a session without open documents. -/
theorem follows_call (closed : session.documents = .empty) (call : Call) :
    Follows session (outcome call.request session).2 := by
  by_cases refresh : call = .refresh
  · rw [refresh]
    exact keeps_refresh.toFollows
  · exact follows_effect.call closed refresh

/-- However a session has been used, no document is open, and its settings and readers are those that it has
been started with. -/
theorem settings_afterAll (closed : session.documents = .empty) (events : List Event) :
    (session.afterAll events).documents = .empty ∧
      (session.afterAll events).settings = session.settings ∧
        (session.afterAll events).workingDirectory = session.workingDirectory ∧
          (session.afterAll events).readers = session.readers := by
  induction events generalizing session with
  | nil => exact ⟨closed, rfl, rfl, rfl⟩
  | cons event events ih =>
    cases event with
    | call call =>
      have follows := follows_call closed call
      obtain ⟨later, settings, workingDirectory, readers⟩ := ih (follows.documents.trans closed)
      exact ⟨later, settings.trans follows.settings, workingDirectory.trans follows.workingDirectory,
        readers.trans follows.readers⟩
    | change source => exact ih closed

/-- While the files do not change, a session stays current. -/
theorem follows_calls (closed : session.documents = .empty) (calls : List Call) :
    Follows session (session.afterAll (calls.map .call)) := by
  induction calls generalizing session with
  | nil => exact .refl session
  | cons call calls ih =>
    have follows := follows_call closed call
    exact follows.trans (ih (follows.documents.trans closed))

end Session

end EmberAssist
