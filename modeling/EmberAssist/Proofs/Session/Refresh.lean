import EmberAssist.Proofs.Session.Agreement
import EmberAssist.Readers.Usual

/-! Starting over: a session that has been refreshed answers as a new one does on which the same projects
have been registered. -/
namespace EmberAssist.Session

open FileReader Request

variable {session fresh : Session}

/-- Registers projects at several roots one after another. -/
def addProjects (session : Session) (roots : List FilePath) : Session :=
  roots.foldl (fun session root => (outcome (addProject root) session).2) session

theorem follows_addProjects (session : Session) (roots : List FilePath) :
    Follows session (session.addProjects roots) := by
  induction roots generalizing session with
  | nil => exact .refl session
  | cons root roots ih => exact (follows_addProject root).trans (ih _)

/-- Projects that are registered at new roots are read from the source. -/
theorem projects_addProjects (current : session.IsCurrent) {roots : List FilePath}
    (distinct : (session.registry.roots ++ roots).Nodup) :
    (session.addProjects roots).registry.projects = session.registry.projects ++ roots.map fun root =>
      (Project.readAt session.readers.scripts root).told session.files.source := by
  induction roots generalizing session with
  | nil => simp [addProjects]
  | cons root roots ih =>
    have steady : Steady .everything (session.registry.register session.readers.scripts root) :=
      ProjectRegistry.steady_register
    have follows : Follows session (outcome (addProject root) session).2 := follows_addProject root
    have new : root ∉ session.registry.roots := fun known =>
      (List.nodup_append.mp distinct).2.2 root known root List.mem_cons_self rfl
    have added : (outcome (addProject root) session).2.registry.projects = session.registry.projects ++
        [(Project.readAt session.readers.scripts root).told session.files.source] := by
      simp only [outcome_addProject]
      rw [steady.answer current.files, ProjectRegistry.told_register,
        ProjectRegistry.get?_eq_none.mpr new]
      exact ProjectRegistry.projects_insert new
    have later : (outcome (addProject root) session).2.registry.roots =
        session.registry.roots ++ [root] := by
      rw [ProjectRegistry.roots, added]
      exact List.map_append
    change ((outcome (addProject root) session).2.addProjects roots).registry.projects = _
    rw [ih (follows.current current) (by rwa [later, List.append_assoc]), added, follows.source,
      follows.readers]
    simp

/-- Whatever has happened to a session, and however its files have changed meanwhile: after it has been
refreshed, it answers every call like a new session over the files as they are, with a cache or without
one, on which projects have been registered at the same roots in the same order. -/
theorem answer_after_refresh (unused : session.IsUnused) (events : List Event) (new : fresh.IsUnused)
    (settings : fresh.settings = session.settings)
    (workingDirectory : fresh.workingDirectory = session.workingDirectory)
    (readers : fresh.readers = session.readers)
    (source : fresh.files.source = (session.afterAll events).files.source) (call : Call) :
    (outcome call.request (outcome refresh (session.afterAll events)).2).1 =
      (outcome call.request (fresh.addProjects (session.afterAll events).registry.roots)).1 := by
  obtain ⟨closed, sameSettings, sameDirectory, sameReaders⟩ :=
    settings_afterAll unused.documents events
  generalize session.afterAll events = used at *
  have kept : Keeps used (outcome refresh used).2 := keeps_refresh
  have added := follows_addProjects fresh used.registry.roots
  refine Twin.call ⟨⟨?_, ?_, ?_, ?_, ?_, isCurrent_refresh, added.current new.isCurrent⟩, ?_⟩ call
  · rw [kept.settings, added.settings, settings, sameSettings]
  · rw [kept.workingDirectory, added.workingDirectory, workingDirectory, sameDirectory]
  · rw [kept.readers, added.readers, readers, sameReaders]
  · rw [kept.documents, added.documents, closed, new.documents]
  · rw [kept.source, added.source, source]
  · have empty : fresh.registry.roots = [] := by rw [new.registry]; rfl
    have distinct : (fresh.registry.roots ++ used.registry.roots).Nodup := by
      rw [empty, List.nil_append]
      exact used.registry.distinct
    refine ProjectRegistry.ext ?_
    rw [projects_refresh, projects_addProjects new.isCurrent distinct, new.registry, source, readers,
      sameReaders]
    rfl

theorem answer_after_refresh_of_new_file :
    let before : FileTable := ⟨[("/p/package.json", some "")]⟩
    let now := before.insert "/p/app/helpers/shout.js" (some "")
    let session := Session.start .usual .usual (.cached before.source)
    let fresh := Session.start .usual .usual (.direct now.source)
    let used := session.afterAll [.call (.modules "/p" none), .change now.source]
    session.IsUnused ∧ fresh.IsUnused ∧ fresh.files.source = used.files.source ∧
      (outcome (Call.modules "/p" none).request (outcome refresh used).2).1 =
        (outcome (Call.modules "/p" none).request (fresh.addProjects used.registry.roots)).1 := by
  intro before now session fresh used
  have unused : session.IsUnused := ⟨.inr rfl, rfl, rfl⟩
  have new : fresh.IsUnused := ⟨.inl rfl, rfl, rfl⟩
  have source : fresh.files.source = used.files.source := by
    simp only [used, afterAll, List.foldl_cons, List.foldl_nil, next]
    rfl
  have started (files : FileAccess) : (Session.start .usual .usual files).settings = .usual ∧
      (Session.start .usual .usual files).workingDirectory = .top .root ∧
        (Session.start .usual .usual files).readers = .usual := ⟨rfl, rfl, rfl⟩
  obtain ⟨settings, workingDirectory, readers⟩ := started (.cached before.source)
  exact ⟨unused, new, source, answer_after_refresh unused _ new settings.symm workingDirectory.symm
    readers.symm source _⟩

end EmberAssist.Session
