import EmberAssist.Completion.Gather
import EmberAssist.Phrase.Catalogue
import EmberAssist.Project.Registry
import EmberAssist.Proofs.Files.Reading

/-! What is read of a project, through a cache or without one: its layout, its modules, its names and
its phrases. -/
namespace EmberAssist

open FileReader

variable {interest : Interest} {scripts : Script.Reader}

/-! ## The layout and the modules -/

theorem Layout.steady_readLayout {root : String}
    (matters : interest.text (environmentFile (.ofString root)) = true) :
    Steady interest (readLayout scripts root) :=
  steady_bind (steady_readText matters) fun _ => steady_pure _

/-- Whatever the environment tells, the root in a layout is the root of the project with slashes for backslashes. -/
theorem Layout.root_ofEnvironment (scripts : Script.Reader) (root : String) (environment : Option String) :
    (ofEnvironment scripts root environment).root = String.ofList (withSlashes root.toList) := by
  unfold ofEnvironment
  split <;> rfl

namespace Project

variable {layout : ProjectLayout} {root : FilePath} {project : Project}

/-- The environment matters that tells the layout of the project at a root. -/
def EnvironmentMatters (interest : Interest) (root : FilePath) : Prop :=
  interest.text (Layout.environmentFile (.ofString root.text)) = true

/-- All files matter that are modules in a layout. -/
def ModulesMatter (interest : Interest) (layout : ProjectLayout) : Prop :=
  ∀ directory ∈ sourceDirectories, ∀ file,
    (layout.classify (layout.root ++ "/" ++ directory ++ "/" ++ file)).isSome = true →
      interest.entry (FilePath.ofString layout.root / directory) file = true

theorem steady_readAt (matters : EnvironmentMatters interest root) :
    Steady interest (readAt scripts root) :=
  steady_bind (Layout.steady_readLayout matters) fun _ => steady_pure _

theorem modulesIn_filter {directory : String} {keep : String → Bool} (files : List String)
    (modules : ∀ file, (layout.classify (layout.root ++ "/" ++ directory ++ "/" ++ file)).isSome = true →
      keep file = true) :
    modulesIn layout directory (files.filter keep) = modulesIn layout directory files := by
  induction files with
  | nil => rfl
  | cons file files ih =>
    simp only [modulesIn] at ih ⊢
    rw [List.filter_cons, List.filterMap_cons]
    split
    · rw [List.filterMap_cons, ih]
    · rename_i left
      rw [ih, Option.not_isSome_iff_eq_none.mp fun found => left (modules file found)]

theorem steady_collectModules (matter : ModulesMatter interest layout) :
    Steady interest (collectModules layout) :=
  steady_bind
    (steady_mapM fun directory member => steady_listFiles_bind
      (fun listing => congrArg pure (modulesIn_filter listing (matter directory member)))
      fun _ => steady_pure _)
    fun _ => steady_pure _

theorem steady_withModules (matter : ModulesMatter interest project.layout) :
    Steady interest project.withModules := by
  unfold withModules
  cases project.modules with
  | some modules => exact steady_pure _
  | none => exact steady_bind (steady_collectModules matter) fun _ => steady_pure _

/-- What is known of a project is what a source tells: the layout, by which paths are classified, and the
modules if they have been collected. -/
structure IsCurrent (scripts : Script.Reader) (source : FileSource) (project : Project) : Prop where
  layout : project.layout = (Layout.readLayout scripts project.root.text).told source
  classifier : project.classifier = ⟨project.layout⟩
  modules : ∀ {modules}, project.modules = some modules →
    modules = (collectModules project.layout).told source

variable {source : FileSource}

theorem isCurrent_readAt (scripts : Script.Reader) (root : FilePath) (source : FileSource) :
    ((readAt scripts root).told source).IsCurrent scripts source := ⟨rfl, rfl, nofun⟩

/-- The modules of a current project are those that are collected from the source. -/
theorem IsCurrent.told_withModules (current : project.IsCurrent scripts source) :
    project.withModules.told source =
      ({ project with modules := some ((collectModules project.layout).told source) },
        (collectModules project.layout).told source) := by
  unfold withModules
  cases collected : project.modules with
  | some modules =>
    obtain ⟨root, layout, classifier, kept⟩ := project
    obtain rfl : kept = some modules := collected
    rw [← current.modules rfl]
    rfl
  | none =>
    exact told_bind (show Steady .everything _ from steady_collectModules fun _ _ _ _ => rfl)
      (fun _ => steady_pure _) source

/-- Where two sources agree on what matters, a project that is current for one is so for the other. -/
theorem IsCurrent.of_agrees {other : FileSource} (current : project.IsCurrent scripts source)
    (agree : source.Agrees interest other) (environment : EnvironmentMatters interest project.root)
    (modules : ModulesMatter interest project.layout) : project.IsCurrent scripts other where
  layout := current.layout.trans ((Layout.steady_readLayout environment).agrees agree)
  classifier := current.classifier
  modules collected := (current.modules collected).trans ((steady_collectModules modules).agrees agree)

/-- Collecting the modules of a project changes neither where it is nor how it is laid out. -/
theorem withModules_keeps (project : Project) (access : FileAccess) :
    (project.withModules access).1.1.root = project.root ∧
      (project.withModules access).1.1.layout = project.layout := by
  unfold withModules
  cases project.modules <;> exact ⟨rfl, rfl⟩

theorem steady_withModules_everything (project : Project) :
    Steady .everything project.withModules := steady_withModules fun _ _ _ _ => rfl

theorem IsCurrent.withModules (current : project.IsCurrent scripts source) :
    (project.withModules.told source).1.IsCurrent scripts source := by
  rw [current.told_withModules]
  exact ⟨current.layout, current.classifier, fun collected => (Option.some.inj collected).symm⟩

end Project

/-! ## Names -/

namespace Completion

open Template (Context)

theorem steady_listComponents (root : FilePath) : Steady .everything (listComponents root) :=
  steady_bind (steady_mapM fun _ _ => steady_listFiles) fun _ => steady_pure _

theorem steady_listHelpers (root : FilePath) : Steady .everything (listHelpers root) :=
  steady_bind steady_listFiles fun _ => steady_pure _

theorem steady_gather (context : Context) (root : FilePath) (modules : List AppModule) :
    Steady .everything (gather context root modules) := by
  cases context with
  | mustache =>
    exact steady_bind (steady_listComponents root) fun _ =>
      steady_bind (steady_listHelpers root) fun _ => steady_pure _
  | block => exact steady_bind (steady_listComponents root) fun _ => steady_pure _
  | subExpression => exact steady_bind (steady_listHelpers root) fun _ => steady_pure _
  | link | none => exact steady_pure _

end Completion

/-! ## Phrases -/

namespace Phrase

variable {reader : Reader} {base root : FilePath} {file directory : String}

/-- All files matter that are read for the phrases below a directory. -/
def PhrasesMatter (interest : Interest) (base : FilePath) : Prop :=
  ∀ file, phraseSuffixes.contains (FilePath.ofString file).lowerSuffix = true →
    interest.entry base file = true ∧ interest.text (base.join (.ofString file)) = true

theorem steady_readFile (matter : PhrasesMatter interest base) :
    Steady interest (readFile reader base file).run := by
  simp only [readFile]
  split
  · rename_i suffix
    exact steady_run_bind (steady_run_lift (steady_readText (matter file suffix).2)) fun
      | some _ => steady_run_ofExcept _
      | none => steady_run_pure _
  · exact steady_run_pure _

/-- Files that are not read for phrases can be left out. -/
theorem mapM_readFile_filter {keep : String → Bool} (files : List String)
    (phrases : ∀ file, phraseSuffixes.contains (FilePath.ofString file).lowerSuffix = true →
      keep file = true) :
    List.flatten <$> (files.filter keep).mapM (readFile reader base) =
      List.flatten <$> files.mapM (readFile reader base) := by
  induction files with
  | nil => rfl
  | cons file files ih =>
    rw [List.filter_cons]
    split
    · have more (found : List (String × Entry)) := congrArg ((found ++ ·) <$> ·) ih
      simp only [map_eq_pure_bind, bind_assoc, pure_bind] at more
      simp only [List.mapM_cons, map_bind, map_pure, List.flatten_cons, more]
    · rename_i left
      have blank : readFile reader base file = pure [] := by
        simp only [readFile]
        rw [if_neg fun suffix => left (phrases file suffix)]
      rw [List.mapM_cons, blank, pure_bind, map_bind]
      simp only [map_pure, List.flatten_cons, List.nil_append]
      rw [ih]
      exact map_eq_pure_bind _ _

/-- The files below the directory are listed, and the phrases in them are collected. -/
theorem run_readCatalogue : (readCatalogue reader root directory).run =
    listFiles (root / directory) >>= fun files =>
      (Catalogue.ofList <$> List.flatten <$> files.mapM (readFile reader (root / directory))).run := by
  simp [readCatalogue, ExceptT.run_bind]

theorem steady_readCatalogue (matter : PhrasesMatter interest (root / directory)) :
    Steady interest (readCatalogue reader root directory).run := by
  rw [run_readCatalogue]
  refine steady_listFiles_bind (fun listing => ?_) fun listing => ?_
  · rw [mapM_readFile_filter listing fun file suffix => (matter file suffix).1]
  · simp only [ExceptT.run_map]
    exact steady_map _ (steady_map _ (steady_run_mapM fun _ _ => steady_readFile matter))

end Phrase

/-! ## Projects that become known -/

namespace ProjectRegistry

variable {registry : ProjectRegistry} {marker : String} {path root : FilePath}

theorem steady_register : Steady .everything (registry.register scripts root) := by
  unfold register
  cases registry.get? root with
  | some project => exact steady_pure _
  | none => exact steady_bind (Project.steady_readAt rfl) fun _ => steady_pure _

theorem steady_nearestMarked? (directories : List FilePath) :
    Steady .everything (nearestMarked? marker directories) := by
  induction directories with
  | nil => exact steady_pure _
  | cons directory directories ih =>
    exact steady_bind (steady_readText rfl) fun
      | some _ => steady_pure _
      | none => ih

theorem steady_discover : Steady .everything (registry.discover scripts marker path) := by
  unfold discover
  cases registry.owner? path with
  | some project => exact steady_pure _
  | none =>
    exact steady_bind (steady_nearestMarked? _) fun
      | some _ => steady_bind steady_register fun _ => steady_pure _
      | none => steady_pure _

theorem steady_refreshAt : Steady .everything (refreshAt scripts registry root) :=
  steady_bind (Project.steady_readAt rfl) fun _ => steady_pure _

theorem steady_refresh : Steady .everything (registry.refresh scripts) :=
  steady_foldlM _ (fun _ _ => steady_refreshAt) registry

end ProjectRegistry

end EmberAssist
