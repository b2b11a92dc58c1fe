import EmberAssist.CommandLine.Index
import EmberAssist.Proofs.Project.Watching
import EmberAssist.Script.Parser

/-! A project on show whose files change. Whatever is read between a change and the batch that tells of
it: after the batch the project is as if it were read anew. -/
namespace EmberAssist.CommandLine

open FileReader

/-- A project on show, the files as they are now, and the paths that have changed since the last batch
of changes. -/
structure Watched where
  view : IndexView
  files : FileTable
  changed : List FilePath

/-- What happens: files are written and deleted, the modules of the project are shown, its phrases and
single files are read, and batches tell of all that has changed since the last of them, and possibly of
more. -/
inductive WatchEvent where
  | write (path : String) (text : Option String)
  | delete (path : String)
  | modules
  | phrases (reader : Phrase.Reader) (directory : String)
  | text (path : FilePath)
  | batch (more : List FilePath)

namespace Watched

variable {scripts : Script.Reader} {root : FilePath} {state : Watched} {files : FileTable} {key : String}

/-- The project at a root, on show from now on. -/
def start (scripts : Script.Reader) (files : FileTable) (root : FilePath) (kind : Option ModuleKind) :
    Watched :=
  ⟨.start scripts files.source root kind, files, []⟩

/-- The files have become others in the place that is written as a key. -/
def change (state : Watched) (key : String) (files : FileTable) : Watched where
  view := { state.view with files := { state.view.files with source := files.source } }
  files := files
  changed := .ofString key :: state.changed

/-- What becomes of a project on show. -/
def next (state : Watched) : WatchEvent → Watched
  | .write path text => state.change path (state.files.insert path text)
  | .delete path => state.change path (state.files.erase path)
  | .modules => { state with view := state.view.render.2 }
  | .phrases reader directory =>
    let files := ((Phrase.readCatalogue reader state.view.project.root directory).run state.view.files).2
    { state with view := { state.view with files } }
  | .text path =>
    { state with view := { state.view with files := (state.view.files.read path).2 } }
  | .batch more => { state with view := state.view.heed (state.changed ++ more), changed := [] }

/-- What has become of a project on show after all that has happened. -/
def afterAll (state : Watched) (events : List WatchEvent) : Watched :=
  events.foldl next state

/-- What is known of the project at a root is right, unless that depends on a watched file that has changed
since the last batch. -/
structure IsSound (scripts : Script.Reader) (root : FilePath) (state : Watched) : Prop where
  reader : state.view.scripts = scripts
  root : state.view.project.root = root
  layoutRoot : (FilePath.ofString state.view.project.layout.root).isAbsolute = true
  source : state.view.files.source = state.files.source
  files : state.view.files.ReflectsBut .watched (state.changed.filter isWatchedFile)
  project : state.changed.filter isWatchedFile = [] →
    state.view.project.IsCurrent scripts state.files.source

/-! ## Reading and changing -/

/-- What is known is right when the project has been read and nothing has changed since. -/
theorem isSound_of_read (absolute : root.isAbsolute = true) {access : FileAccess}
    (reflects : access.Reflects .watched) (source : access.source = files.source)
    (kind : Option ModuleKind) :
    (⟨⟨scripts, (Project.readAt scripts root access).1, (Project.readAt scripts root access).2, kind⟩, files,
      []⟩ : Watched).IsSound scripts root := by
  have steady : Steady .watched (Project.readAt scripts root) :=
    Project.steady_readAt (environmentMatters_watched root)
  have told : (Project.readAt scripts root access).1 = (Project.readAt scripts root).told files.source := by
    rw [steady.answer reflects, source]
  rw [told]
  exact {
    reader := rfl
    root := rfl
    layoutRoot := isAbsolute_layoutRoot absolute scripts _
    source := (steady.source access).trans source
    files := steady.reflects reflects
    project := fun _ => Project.isCurrent_readAt scripts root _ }

theorem isSound_start (absolute : root.isAbsolute = true) (scripts : Script.Reader) (files : FileTable)
    (kind : Option ModuleKind) : (start scripts files root kind).IsSound scripts root := by
  have empty : (FileAccess.cached files.source).Reflects .watched := FileAccess.reflects_of_empty rfl
  exact isSound_of_read absolute empty rfl kind

theorem IsSound.reflects (sound : state.IsSound scripts root)
    (quiet : state.changed.filter isWatchedFile = []) : state.view.files.Reflects .watched := by
  have files := sound.files
  rwa [quiet] at files

theorem IsSound.change (sound : state.IsSound scripts root)
    (differ : FileSource.DifferAt key state.files.source files.source) :
    (state.change key files).IsSound scripts root where
  reader := sound.reader
  root := sound.root
  layoutRoot := sound.layoutRoot
  source := rfl
  files := sound.files.change (sound.source ▸ differ)
  project unwatched := by
    have unwatched : (FilePath.ofString key :: state.changed).filter isWatchedFile = [] := unwatched
    rw [List.filter_eq_nil_iff, List.forall_mem_cons] at unwatched
    exact (sound.project (List.filter_eq_nil_iff.mpr unwatched.2)).of_agrees
      (differ.agrees (by simpa using unwatched.1)) (environmentMatters_watched _)
      (modulesMatter_watched sound.layoutRoot)

theorem IsSound.modules (sound : state.IsSound scripts root) :
    ({ state with view := state.view.render.2 } : Watched).IsSound scripts root := by
  have steady : Steady .watched state.view.project.withModules :=
    Project.steady_withModules (modulesMatter_watched sound.layoutRoot)
  obtain ⟨sameRoot, sameLayout⟩ := state.view.project.withModules_keeps state.view.files
  exact {
    reader := sound.reader
    root := sameRoot.trans sound.root
    layoutRoot := by
      change (FilePath.ofString (state.view.project.withModules _).1.1.layout.root).isAbsolute = true
      rw [sameLayout]
      exact sound.layoutRoot
    source := (steady.source _).trans sound.source
    files := steady.reflects sound.files
    project := fun quiet => by
      have reflects := sound.reflects quiet
      change (state.view.project.withModules _).1.1.IsCurrent scripts state.files.source
      rw [steady.answer reflects, sound.source]
      exact (sound.project quiet).withModules }

theorem IsSound.reads (sound : state.IsSound scripts root) {access : FileAccess}
    (source : access.source = state.view.files.source)
    (reflects : access.ReflectsBut .watched (state.changed.filter isWatchedFile)) :
    ({ state with view := { state.view with files := access } } : Watched).IsSound scripts root where
  reader := sound.reader
  root := sound.root
  layoutRoot := sound.layoutRoot
  source := source.trans sound.source
  files := reflects
  project := sound.project

/-- A batch leaves nothing that is out of date. -/
theorem IsSound.batch (absolute : root.isAbsolute = true) (sound : state.IsSound scripts root)
    (more : List FilePath) :
    ({ state with view := state.view.heed (state.changed ++ more), changed := [] } :
      Watched).IsSound scripts root := by
  have covered (path : FilePath) (member : path ∈ state.changed.filter isWatchedFile) :
      path ∈ Watch.relevant (state.changed ++ more) := by
    obtain ⟨changed, watched⟩ := List.mem_filter.mp member
    exact Watch.mem_relevant.mpr ⟨List.mem_append_left more changed, watched⟩
  unfold IndexView.heed
  split
  · rename_i nothing
    have quiet : state.changed.filter isWatchedFile = [] :=
      List.eq_nil_iff_forall_not_mem.mpr fun path member => by simpa [nothing] using covered path member
    exact ⟨sound.reader, sound.root, sound.layoutRoot, sound.source, sound.reflects quiet,
      fun _ => sound.project quiet⟩
  · rw [sound.reader, sound.root]
    have reflects : (state.view.files.invalidate _).Reflects .watched :=
      sound.files.invalidate fun path member => .inl (covered path member)
    exact isSound_of_read absolute reflects sound.source state.view.kind

/-- Whatever happens keeps what is known of the project right. -/
theorem IsSound.next (absolute : root.isAbsolute = true) (sound : state.IsSound scripts root)
    (event : WatchEvent) : (state.next event).IsSound scripts root := by
  cases event with
  | write path text => exact sound.change (state.files.differAt_insert path text)
  | delete path => exact sound.change (state.files.differAt_erase path)
  | modules => exact sound.modules
  | phrases reader directory =>
    have steady : Steady .everything (Phrase.readCatalogue reader state.view.project.root directory).run :=
      Phrase.steady_readCatalogue fun _ _ => ⟨rfl, rfl⟩
    exact sound.reads (steady.source _) (steady.reflects sound.files)
  | text path => exact sound.reads (FileAccess.source_read path) (sound.files.read path)
  | batch more => exact sound.batch absolute more

theorem IsSound.afterAll (absolute : root.isAbsolute = true) (sound : state.IsSound scripts root)
    (events : List WatchEvent) : (state.afterAll events).IsSound scripts root := by
  induction events generalizing state with
  | nil => exact sound
  | cons event events ih => exact ih (sound.next absolute event)

/-- No change is missed. Whatever has happened to a project on show: right after a batch that tells of
all that has changed since the last one, its layout, its modules, its phrases and the texts of all
watched files are what a new project without a cache reads from the files as they are. Only the root
directory itself is no place for phrases: what is written with two slashes in front is listed in it, but
does not lie below it. -/
theorem fresh_after_batch (absolute : root.isAbsolute = true) (scripts : Script.Reader) (files : FileTable)
    (kind : Option ModuleKind) (events : List WatchEvent) (more : List FilePath) :
    let state := ((start scripts files root kind).afterAll events).next (.batch more)
    let source := state.files.source
    let fresh := (Project.readAt scripts root).told source
    state.view.project.layout = fresh.layout ∧
      (state.view.project.withModules state.view.files).1.2 = (fresh.withModules.told source).2 ∧
      (∀ (reader : Phrase.Reader) (directory : String), (root / directory).parts ≠ [] →
        ((Phrase.readCatalogue reader state.view.project.root directory).run state.view.files).1 =
          (Phrase.readCatalogue reader root directory).run.told source) ∧
      ∀ path, isWatchedFile (.ofString path) = true →
        (state.view.files.read (.ofString path)).1 = source.read (.ofString path) := by
  intro state source fresh
  have sound : state.IsSound scripts root :=
    ((isSound_start absolute scripts files kind).afterAll absolute events).batch absolute more
  have current : state.view.project.IsCurrent scripts source := sound.project rfl
  have layout : state.view.project.layout = fresh.layout := by
    rw [current.layout, sound.root]
    rfl
  refine ⟨layout, ?_, fun reader directory filled => ?_, fun path watched => ?_⟩
  · have steady : Steady .watched state.view.project.withModules :=
      Project.steady_withModules (modulesMatter_watched sound.layoutRoot)
    rw [steady.answer sound.files, sound.source, current.told_withModules,
      (Project.isCurrent_readAt scripts root source).told_withModules, layout]
  · have place : (root / directory).isPlace = true := FilePath.isPlace_iff.mpr
      ⟨FilePath.isAbsolute_append absolute directory, filled⟩
    rw [sound.root, (Phrase.steady_readCatalogue (phrasesMatter_watched place)).answer sound.files,
      sound.source]
  · have matters : Interest.watched.text (.ofString path) = true := by
      simp [Interest.watched, watched]
    rw [sound.files.read_eq matters, sound.source]

theorem fresh_after_deletion :
    let root := FilePath.ofString "/p"
    let files : FileTable := ⟨[("/p/app/helpers/shout.js", some "")]⟩
    let events := [.modules, .delete "/p/app/helpers/shout.js", .write "/p/README.md" (some ""), .modules]
    let state := ((start .usual files root none).afterAll events).next (.batch [])
    root.isAbsolute = true ∧
      (state.view.project.withModules state.view.files).1.2 =
        (((Project.readAt .usual root).told state.files.source).withModules.told state.files.source).2 := by
  intro root files events state
  have absolute : root.isAbsolute = true := by decide +kernel
  exact ⟨absolute, (fresh_after_batch absolute .usual files none events []).2.1⟩

end Watched

end EmberAssist.CommandLine
