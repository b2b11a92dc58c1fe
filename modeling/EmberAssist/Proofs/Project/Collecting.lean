import EmberAssist.Proofs.Files.Viewing
import EmberAssist.Proofs.Layout.TopLevel
import EmberAssist.Proofs.Project.Orderly
import EmberAssist.Script.Parser
import Mathlib.Data.List.Induction

/-! The modules of a project, which are collected once and kept while the files change. They are collected with the
layout by which the project classifies single paths, and a project that gets another layout forgets them. So what is
kept can always be told by the paths that were listed when it was collected. -/
namespace EmberAssist

open FileReader FilePath

namespace Layout

/-- Pods are looked for in a directory of the application, whatever the environment tells. -/
theorem exists_podPrefix (scripts : Script.Reader) (root : String) (environment : Option String) :
    ∃ rest, (ofEnvironment scripts root environment).podPrefix.toList = 'a' :: rest := by
  unfold ofEnvironment
  split
  · exact ⟨_, by rw [String.toList_append]; rfl⟩
  · exact ⟨_, show defaultPodPrefix.toList = _ from rfl⟩

end Layout

namespace Project

variable {scripts : Script.Reader} {root : FilePath} {project : Project} {directory : String}

/-! ## The files that are listed -/

/-- What is collected with a layout, directory by directory. -/
theorem fst_collectModules (layout : ProjectLayout) (files : FileAccess) : (collectModules layout files).1 =
    sourceDirectories.flatMap fun directory =>
      modulesIn layout directory (files.list (FilePath.ofString layout.root / directory)).1 := by
  let listed (directory : String) : FileReader (List AppModule) := do
    return modulesIn layout directory (← listFiles (FilePath.ofString layout.root / directory))
  have reads : ReadsView (collectModules layout) :=
    readsView_bind (readsView_mapM (fun _ => readsView_bind readsView_listFiles fun _ => readsView_pure _) _)
      fun _ => readsView_pure _
  have steady (directory : String) : Steady .everything (listed directory) :=
    steady_bind steady_listFiles fun _ => steady_pure _
  have collected : (collectModules layout).told files.view =
      (sourceDirectories.map fun directory => (listed directory).told files.view).flatten := by
    rw [← told_mapM _ steady]
    exact told_bind (steady_mapM fun directory _ => steady directory) (fun _ => steady_pure _) files.view
  rw [reads.answer, collected, List.flatMap]
  congr 2
  funext directory
  rw [FileAccess.fst_list]
  rfl

/-- The paths of the files that are listed below the source directories of the project at a root. -/
def sourceFiles (root : FilePath) (files : FileAccess) : List String :=
  sourceDirectories.flatMap fun directory =>
    (files.list (root / directory)).1.map ((root / directory).textWithSlash ++ ·)

/-- A project is laid out as an environment tells that has been read at its root, and classifies paths so. -/
structure IsLaidOut (scripts : Script.Reader) (place : FilePath) (project : Project) : Prop where
  root : project.root = place
  layout : ∃ environment, project.layout = Layout.ofEnvironment scripts place.text environment
  classifier : project.classifier = ⟨project.layout⟩

theorem isLaidOut_readAt (scripts : Script.Reader) (root : FilePath) (files : FileAccess) :
    (readAt scripts root files).1.IsLaidOut scripts root :=
  ⟨rfl, ⟨_, rfl⟩, rfl⟩

theorem IsLaidOut.of_remains {later : Project} (laidOut : project.IsLaidOut scripts root)
    (remains : project.Remains later) : later.IsLaidOut scripts root where
  root := remains.root.trans laidOut.root
  layout := remains.layout ▸ laidOut.layout
  classifier := by rw [remains.classifier, laidOut.classifier, remains.layout]

theorem IsLaidOut.layout_root (laidOut : project.IsLaidOut scripts root) (forward : '\\' ∉ root.text.toList) :
    project.layout.root = root.text := by
  obtain ⟨environment, laid⟩ := laidOut.layout
  rw [laid, Layout.root_ofEnvironment, Layout.withSlashes_of_notMem forward, String.ofList_toList]

/-- A source directory is one segment. -/
theorem ofString_sourceDirectory (source : directory ∈ sourceDirectories) :
    (FilePath.ofString directory).isAbsolute = false ∧ (FilePath.ofString directory).parts = [directory] := by
  have all : ∀ directory ∈ sourceDirectories, (FilePath.ofString directory).isAbsolute = false ∧
      (FilePath.ofString directory).parts = [directory] := by
    decide +kernel
  exact all directory source

/-- How a source directory is written below a root: with a slash between them, unless the root ends with one. -/
theorem toList_textWithSlash_source (absolute : root.isAbsolute = true) (source : directory ∈ sourceDirectories) :
    (root / directory).textWithSlash.toList =
      root.text.toList ++ (if root.parts = [] then [] else ['/']) ++ directory.toList ++ ['/'] := by
  obtain ⟨inside, segments⟩ := ofString_sourceDirectory source
  have begun : (root / directory).root = root.root := root_join_of_relative inside
  have parts : (root / directory).parts = root.parts ++ [directory] := by
    rw [← segments]
    exact parts_join_of_relative inside
  rw [toList_textWithSlash_of_ne_nil (by simp [parts]), toList_text (isAbsolute_append absolute directory),
    toList_text absolute, begun, parts]
  cases spelled : root.parts with
  | nil => simp
  | cons first parts =>
    rw [toList_intercalate_append first directory parts []]
    simp

/-- With a slash between them, a root that ends with one gets another in front. -/
theorem text_source_of_top (absolute : root.isAbsolute = true) (top : root.parts = [])
    (source : directory ∈ sourceDirectories) (file : String) : root.text ++ "/" ++ directory ++ "/" ++ file =
      "/" ++ ((root / directory).textWithSlash ++ file) := by
  have slashes : root.text.toList = root.root.text.toList := by simp [toList_text absolute, top]
  apply String.toList_inj.mp
  cases begun : root.root <;>
    simp [toList_textWithSlash_source absolute source, top, slashes, begun, PathRoot.text]

theorem text_source_of_ne_nil (absolute : root.isAbsolute = true) (filled : root.parts ≠ [])
    (source : directory ∈ sourceDirectories) (file : String) : root.text ++ "/" ++ directory ++ "/" ++ file =
      (root / directory).textWithSlash ++ file := by
  apply String.toList_inj.mp
  simp [toList_textWithSlash_source absolute source, filled]

/-- Which way a file is written below the root makes no difference to its module. -/
theorem IsLaidOut.classify_source (laidOut : project.IsLaidOut scripts root) (absolute : root.isAbsolute = true)
    (forward : '\\' ∉ root.text.toList) (source : directory ∈ sourceDirectories) (file : String) :
    project.layout.classify (project.layout.root ++ "/" ++ directory ++ "/" ++ file) =
      project.classify ((root / directory).textWithSlash ++ file) := by
  rw [Project.classify, laidOut.classifier, PathClassifier.classify, laidOut.layout_root forward]
  by_cases top : root.parts = []
  · obtain ⟨environment, laid⟩ := laidOut.layout
    obtain ⟨rest, pods⟩ := Layout.exists_podPrefix scripts root.text environment
    have trimmed : Layout.trimRoot project.layout.root.toList = [] := by
      rw [laidOut.layout_root forward, toList_text absolute, top]
      cases root.root <;> decide
    have slashed : ((root / directory).textWithSlash ++ file).toList.head? = some '/' := by
      rw [String.toList_append, toList_textWithSlash_source absolute source]
      simp [head?_text absolute]
    rw [text_source_of_top absolute top source file]
    exact Layout.classify_slash trimmed (laid ▸ pods) (by decide) slashed
  · rw [text_source_of_ne_nil absolute top source file]

/-- What is collected for a project are the modules that it makes of the files that are listed. -/
theorem IsLaidOut.fst_collectModules (laidOut : project.IsLaidOut scripts root)
    (absolute : root.isAbsolute = true) (forward : '\\' ∉ root.text.toList) (files : FileAccess) :
    (collectModules project.layout files).1 = (sourceFiles root files).filterMap project.classify := by
  rw [Project.fst_collectModules, sourceFiles, List.filterMap_flatMap, laidOut.layout_root forward,
    ofString_text]
  refine List.flatMap_congr fun directory source => ?_
  rw [modulesIn, List.filterMap_map]
  refine List.filterMap_congr fun file _ => ?_
  rw [Function.comp_apply, laidOut.classify_source absolute forward source file]

end Project

/-! ## A project in use -/

/-- What happens to a project in use: its modules are asked for, it is refreshed, or there are other files. -/
inductive ProjectEvent where
  | modules
  | refresh
  | change (files : FileAccess)

/-- A project, the files that it reads, and how scripts are read. -/
structure ProjectInUse where
  scripts : Script.Reader
  project : Project
  files : FileAccess

namespace ProjectInUse

variable {first : ProjectInUse} {scripts : Script.Reader} {root : FilePath}
variable {before events : List ProjectEvent} {event : ProjectEvent}

/-- A project that has just been read at a root. -/
def start (scripts : Script.Reader) (root : FilePath) (files : FileAccess) : ProjectInUse :=
  let (project, files) := Project.readAt scripts root files
  ⟨scripts, project, files⟩

/-- The modules that are told of a project when they are asked for. -/
def modules (state : ProjectInUse) : List AppModule := (state.project.withModules state.files).1.2

/-- What is left by an event. -/
def next (state : ProjectInUse) : ProjectEvent → ProjectInUse
  | .modules =>
    let ((project, _), files) := state.project.withModules state.files
    { state with project, files }
  | .refresh => start state.scripts state.project.root state.files
  | .change files => { state with files }

/-- What is left by events, one after the other. -/
def afterAll (state : ProjectInUse) (events : List ProjectEvent) : ProjectInUse := events.foldl next state

theorem afterAll_concat (state : ProjectInUse) (events : List ProjectEvent) (event : ProjectEvent) :
    state.afterAll (events ++ [event]) = (state.afterAll events).next event := by
  simp [afterAll]

/-! ### Where a project is laid out -/

theorem scripts_next (state : ProjectInUse) (event : ProjectEvent) :
    (state.next event).scripts = state.scripts := by
  cases event <;> rfl

theorem isLaidOut_next (same : first.scripts = scripts) (laidOut : first.project.IsLaidOut scripts root)
    (event : ProjectEvent) : (first.next event).project.IsLaidOut scripts root := by
  cases event with
  | modules => exact laidOut.of_remains (first.project.remains_withModules first.files)
  | refresh =>
    rw [← laidOut.root, ← same]
    exact Project.isLaidOut_readAt first.scripts first.project.root first.files
  | change files => exact laidOut

/-- However a project is used, it stays at its root, and its environment is always read in the same way. -/
theorem isLaidOut_afterAll (scripts : Script.Reader) (root : FilePath) (files : FileAccess)
    (events : List ProjectEvent) : ((start scripts root files).afterAll events).scripts = scripts ∧
    ((start scripts root files).afterAll events).project.IsLaidOut scripts root := by
  induction events using List.reverseRecOn with
  | nil => exact ⟨rfl, Project.isLaidOut_readAt scripts root files⟩
  | append_singleton events event ih =>
    obtain ⟨same, laidOut⟩ := ih
    rw [afterAll_concat, scripts_next]
    exact ⟨same, isLaidOut_next same laidOut event⟩

/-! ### When modules are collected -/

/-- The modules that are kept after events were collected when they were asked for after those before: a project that
had none was asked for them, and it has not been refreshed since. -/
structure CollectedAfter (first : ProjectInUse) (before events : List ProjectEvent) : Prop where
  uncollected : (first.afterAll before).project.modules = none
  asked : ∃ rest, events = before ++ .modules :: rest ∧ .refresh ∉ rest

theorem CollectedAfter.concat (collected : first.CollectedAfter before events)
    (keeps : event ≠ .refresh) : first.CollectedAfter before (events ++ [event]) := by
  obtain ⟨rest, rfl, kept⟩ := collected.asked
  exact ⟨collected.uncollected, rest ++ [event], by simp, by simp [kept, keeps.symm]⟩

/-- A project that is asked for its modules keeps those that it tells. -/
theorem modules_next_modules (state : ProjectInUse) :
    (state.next .modules).project.modules = some state.modules := by
  unfold next modules Project.withModules
  cases kept : state.project.modules with
  | some modules => exact kept
  | none => rfl

/-- Modules that are kept stay until the project is refreshed. -/
theorem isSome_modules_next (kept : first.project.modules.isSome = true) (keeps : event ≠ .refresh) :
    (first.next event).project.modules.isSome = true := by
  cases event with
  | modules => rw [modules_next_modules, Option.isSome_some]
  | refresh => exact absurd rfl keeps
  | change files => exact kept

theorem isSome_modules_afterAll (kept : first.project.modules.isSome = true) (keeps : .refresh ∉ events) :
    (first.afterAll events).project.modules.isSome = true := by
  induction events generalizing first with
  | nil => exact kept
  | cons event events ih =>
    obtain ⟨other, later⟩ := List.ne_and_not_mem_of_not_mem_cons keeps
    exact ih (isSome_modules_next kept other.symm) later

/-- Modules that were collected are not collected once more. -/
theorem CollectedAfter.not_again (collected : first.CollectedAfter before events) {more : List ProjectEvent}
    (again : first.CollectedAfter (before ++ more) events) : more = [] := by
  obtain ⟨rest, rfl, keeps⟩ := collected.asked
  obtain ⟨rest', cut, -⟩ := again.asked
  rw [List.append_assoc, List.append_cancel_left_eq] at cut
  cases more with
  | nil => rfl
  | cons event between =>
    obtain ⟨rfl, rfl⟩ := List.cons.inj cut
    have kept : ((first.afterAll before).next .modules).project.modules.isSome = true := by
      rw [modules_next_modules, Option.isSome_some]
    have still := isSome_modules_afterAll kept fun member => keeps (List.mem_append_left _ member)
    have cut : first.afterAll (before ++ .modules :: between) =
        ((first.afterAll before).next .modules).afterAll between := by simp [afterAll]
    rw [← cut, again.uncollected] at still
    cases still

/-- There is one moment only at which the modules were collected that are kept. -/
theorem CollectedAfter.unique {before' : List ProjectEvent} (one : first.CollectedAfter before events)
    (other : first.CollectedAfter before' events) : before = before' := by
  obtain ⟨rest, cut, -⟩ := one.asked
  obtain ⟨rest', cut', -⟩ := other.asked
  rcases List.append_eq_append_iff.mp (cut.symm.trans cut') with ⟨more, rfl, -⟩ | ⟨more, rfl, -⟩
  · rw [one.not_again other, List.append_nil]
  · rw [other.not_again one, List.append_nil]

/-- What a project tells are the modules that it has kept, and if there are none those that it collects. -/
theorem modules_eq (state : ProjectInUse) : state.modules =
    state.project.modules.getD (Project.collectModules state.project.layout state.files).1 := by
  unfold modules Project.withModules
  cases state.project.modules <;> rfl

/-- What is kept after events is nothing, or what was collected with the layout that the project has. -/
def KeepsCollected (first : ProjectInUse) (events : List ProjectEvent) : Prop :=
  (first.afterAll events).project.modules = none ∨ ∃ before, first.CollectedAfter before events ∧
    (first.afterAll events).project.modules = some
      (Project.collectModules (first.afterAll events).project.layout (first.afterAll before).files).1

theorem KeepsCollected.told (keeps : first.KeepsCollected events) :
    ∃ before, first.CollectedAfter before (events ++ [.modules]) ∧ (first.afterAll events).modules =
      (Project.collectModules (first.afterAll events).project.layout (first.afterAll before).files).1 := by
  rw [modules_eq]
  obtain none | ⟨before, collected, kept⟩ := keeps
  · exact ⟨events, ⟨none, [], rfl, List.not_mem_nil⟩, by rw [none]; rfl⟩
  · exact ⟨before, collected.concat nofun, by rw [kept]; rfl⟩

theorem KeepsCollected.concat (keeps : first.KeepsCollected events) (event : ProjectEvent) :
    first.KeepsCollected (events ++ [event]) := by
  unfold KeepsCollected
  rw [afterAll_concat]
  cases event with
  | refresh => exact .inl rfl
  | change files =>
    obtain none | ⟨before, collected, kept⟩ := keeps
    · exact .inl none
    · exact .inr ⟨before, collected.concat nofun, kept⟩
  | modules =>
    have remains : (first.afterAll events).project.Remains ((first.afterAll events).next .modules).project :=
      (first.afterAll events).project.remains_withModules (first.afterAll events).files
    obtain ⟨before, collected, told⟩ := keeps.told
    exact .inr ⟨before, collected, by rw [modules_next_modules, told, remains.layout]⟩

theorem keepsCollected_start (scripts : Script.Reader) (root : FilePath) (files : FileAccess)
    (events : List ProjectEvent) :
    (start scripts root files).KeepsCollected events := by
  induction events using List.reverseRecOn with
  | nil => exact .inl rfl
  | append_singleton events event ih => exact ih.concat event

/-- Whenever a project is asked for its modules, there is one moment at which they were collected, and it tells what it
now makes of the files that were listed then, one after the other as they were listed. So each of its modules is the
module of a listed file. -/
theorem modules_of_listed (scripts : Script.Reader) (absolute : root.isAbsolute = true)
    (forward : '\\' ∉ root.text.toList) (files : FileAccess) (events : List ProjectEvent) :
    let now := (start scripts root files).afterAll events
    ∃ before,
      (∀ other, (start scripts root files).CollectedAfter other (events ++ [.modules]) ↔ other = before) ∧
      let built := (start scripts root files).afterAll before
      now.modules = (Project.sourceFiles root built.files).filterMap now.project.classify ∧
      ∀ found ∈ now.modules, ∃ directory ∈ Project.sourceDirectories,
        ∃ file ∈ (built.files.list (root / directory)).1,
          now.project.layout.classify (root.text ++ "/" ++ directory ++ "/" ++ file) = some found := by
  intro now
  have laidOut : now.project.IsLaidOut scripts root := (isLaidOut_afterAll scripts root files events).2
  obtain ⟨before, collected, told⟩ := (keepsCollected_start scripts root files events).told
  refine ⟨before, fun other => ⟨fun again => again.unique collected, fun same => same ▸ collected⟩, ?_,
    fun found member => ?_⟩
  · exact told.trans (laidOut.fst_collectModules absolute forward _)
  · rw [told, Project.fst_collectModules, List.mem_flatMap] at member
    obtain ⟨directory, source, member⟩ := member
    obtain ⟨file, listed, classified⟩ := List.mem_filterMap.mp member
    rw [laidOut.layout_root forward, ofString_text] at listed
    rw [laidOut.layout_root forward] at classified
    exact ⟨directory, source, file, listed, classified⟩

/-- A helper that was listed when the modules were collected is still told when all files are gone. -/
theorem modules_of_listed_then_removed :
    let root : FilePath := .ofString "/p"
    let files : FileAccess :=
      .direct ⟨fun directory => if directory = root / "app" then ["helpers/shout.js"] else [], fun _ => none⟩
    let events := [.modules, .change (.direct ⟨fun _ => [], fun _ => none⟩)]
    let now := (start .usual root files).afterAll events
    now.modules = [⟨"shout".toList, .helper⟩] ∧
      now.modules =
        (Project.sourceFiles root (start .usual root files).files).filterMap now.project.classify := by
  intro root files events now
  have told : now.modules = [⟨"shout".toList, .helper⟩] := by decide +kernel
  obtain ⟨before, moment, listed, -⟩ :=
    modules_of_listed .usual (show root.isAbsolute = true by decide +kernel) (by decide +kernel) files events
  have collected : (start .usual root files).CollectedAfter [] (events ++ [.modules]) := ⟨rfl, _, rfl, by simp⟩
  obtain rfl := (moment []).mp collected
  exact ⟨told, listed⟩

end ProjectInUse

end EmberAssist
