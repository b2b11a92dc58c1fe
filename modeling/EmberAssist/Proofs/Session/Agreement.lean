import EmberAssist.Proofs.Session.History

/-! Sessions that answer alike. Where two sessions are current, their answers come from the source, and
differ only where the sessions know different projects. -/
namespace EmberAssist.Session

open FileReader Request

variable {α β : Type} {a b after later : Session} {uri : String}

/-- Two sessions that are current and differ at most in the projects they know and in what they keep of
the files. -/
structure Akin (a b : Session) : Prop where
  settings : a.settings = b.settings
  workingDirectory : a.workingDirectory = b.workingDirectory
  readers : a.readers = b.readers
  documents : a.documents = b.documents
  source : a.files.source = b.files.source
  left : a.IsCurrent
  right : b.IsCurrent

/-- Projects with the same root are consulted in both sessions for the document at a URI. -/
structure Beside (uri : String) (a b : Session) : Prop extends Akin a b where
  consulted : (a.consulted? uri).map Project.root = (b.consulted? uri).map Project.root

/-- The same projects are known to both sessions. -/
structure Twin (a b : Session) : Prop extends Akin a b where
  registry : a.registry = b.registry

theorem Akin.refl (current : a.IsCurrent) : Akin a a := ⟨rfl, rfl, rfl, rfl, rfl, current, current⟩

theorem Akin.follows (akin : Akin a b) (left : Follows a after) (right : Follows b later) :
    Akin after later where
  settings := by rw [left.settings, right.settings, akin.settings]
  workingDirectory := by rw [left.workingDirectory, right.workingDirectory, akin.workingDirectory]
  readers := by rw [left.readers, right.readers, akin.readers]
  documents := by rw [left.documents, right.documents, akin.documents]
  source := by rw [left.source, right.source, akin.source]
  left := left.current akin.left
  right := right.current akin.right

/-- Both sessions read the same. -/
theorem Akin.reads (akin : Akin a b) {reader : FileReader α} (steady : Steady .everything reader) :
    (reader a.files).1 = (reader b.files).1 := by
  rw [steady.answer akin.left.files, steady.answer akin.right.files, akin.source]

theorem Beside.keeps (beside : Beside uri a b) (left : Keeps a after) (right : Keeps b later) :
    Beside uri after later where
  toAkin := beside.toAkin.follows left.toFollows right.toFollows
  consulted := by
    have before := beside.consulted
    rw [root_consulted?, root_consulted?] at before ⊢
    rw [left.roots, right.roots, before]

theorem Twin.beside (twin : Twin a b) (uri : String) : Beside uri a b where
  toAkin := twin.toAkin
  consulted := by rw [root_consulted?, root_consulted?, twin.registry]

/-- Requests answer alike if their first steps do, and what they go on with. -/
theorem same_bind {first other : Request α} {next : α → Request β}
    (same : (outcome first a).1 = (outcome other b).1)
    (rest : ∀ x, (outcome first a).1 = .ok x →
      (outcome (next x) (outcome first a).2).1 = (outcome (next x) (outcome other b).2).1) :
    (outcome (first >>= next) a).1 = (outcome (other >>= next) b).1 := by
  rw [outcome_bind, outcome_bind]
  rcases left : outcome first a with ⟨fault | x, after⟩ <;>
    rcases right : outcome other b with ⟨fault | y, later⟩
  all_goals rw [left, right] at same
  · simpa using same
  · cases same
  · cases same
  · cases same
    have rest := rest x (by rw [left])
    rw [left, right] at rest
    exact rest

/-! ## Completion -/

/-- What a completion is asked for in, when it is the same file of the same project in two sessions. -/
inductive SameTarget (a b : Session) :
    Except RequestFault (Option Target) → Except RequestFault (Option Target) → Prop
  | fault (fault : RequestFault) : SameTarget a b (.error fault) (.error fault)
  | none : SameTarget a b (.ok none) (.ok none)
  | some {language : Language} {project other : Project} {document : Document}
      (left : project ∈ a.registry.projects) (right : other ∈ b.registry.projects)
      (root : project.root = other.root) :
      SameTarget a b (.ok (some ⟨language, project, document⟩)) (.ok (some ⟨language, other, document⟩))

theorem Beside.target? (beside : Beside uri a b) :
    SameTarget a b (outcome (target? uri) a).1 (outcome (target? uri) b).1 := by
  rw [outcome_target?, outcome_target?, ← beside.documents]
  cases decoded : Uri.toFilePath? uri with
  | error fault => exact .fault _
  | ok path =>
    cases path with
    | none => exact .none
    | some path =>
      have same := beside.consulted
      simp only [consulted?, decoded] at same
      simp only
      cases Language.ofPath? path with
      | none => exact .none
      | some language =>
        cases a.documents.get? uri with
        | none =>
          cases a.registry.owner? (.ofString path) <;> cases b.registry.owner? (.ofString path) <;>
            exact .none
        | some document =>
          rcases left : a.registry.owner? (.ofString path) with _ | project <;>
            rcases right : b.registry.owner? (.ofString path) with _ | other
          all_goals rw [left, right] at same
          · exact .none
          · cases same
          · cases same
          · exact .some (ProjectRegistry.owner?_eq_some left).1 (ProjectRegistry.owner?_eq_some right).1
              (Option.some.inj same)

/-- What goes on from a target answers alike if it does for projects with the same root. -/
theorem Beside.target?_bind (beside : Beside uri a b) {next : Option Target → Request α}
    (untargeted : (outcome (next none) a).1 = (outcome (next none) b).1)
    (targeted : ∀ language project other document, project ∈ a.registry.projects →
      other ∈ b.registry.projects → project.root = other.root →
        (outcome (next (some ⟨language, project, document⟩)) a).1 =
          (outcome (next (some ⟨language, other, document⟩)) b).1) :
    (outcome (Session.target? uri >>= next) a).1 = (outcome (Session.target? uri >>= next) b).1 := by
  have same := beside.target?
  rw [outcome_bind_of_keeps (target?_keeps uri), outcome_bind_of_keeps (target?_keeps uri)]
  generalize (outcome (Session.target? uri) a).1 = left at same
  generalize (outcome (Session.target? uri) b).1 = right at same
  cases same with
  | fault fault => rfl
  | none => exact untargeted
  | some left right root => exact targeted _ _ _ _ left right root

theorem Akin.focus? (akin : Akin a b) (document : Document) (p : Position) :
    (outcome (focus? document p) a).1 = (outcome (focus? document p) b).1 := by
  rw [outcome_focus?, outcome_focus?, akin.readers, akin.settings]

/-- Of projects that are current and have the same root the layouts are the same. -/
theorem Akin.layout (akin : Akin a b) {project other : Project} (left : project ∈ a.registry.projects)
    (right : other ∈ b.registry.projects) (root : project.root = other.root) :
    project.layout = other.layout := by
  rw [(akin.left.registry project left).layout, (akin.right.registry other right).layout, root,
    akin.source, akin.readers]

/-- Their modules are the same too, also if those of one have been collected already. -/
theorem Akin.modules (akin : Akin a b) {project other : Project} (left : project ∈ a.registry.projects)
    (right : other ∈ b.registry.projects) (root : project.root = other.root) :
    (outcome (modulesOf project) a).1 = (outcome (modulesOf other) b).1 := by
  have steady := Project.steady_withModules_everything
  simp only [outcome_modulesOf]
  rw [(steady project).answer akin.left.files, (steady other).answer akin.right.files,
    (akin.left.registry project left).told_withModules,
    (akin.right.registry other right).told_withModules, akin.layout left right root, akin.source]

theorem Beside.gatherFrom (beside : Beside uri a b) {project other : Project}
    (left : project ∈ a.registry.projects) (right : other ∈ b.registry.projects)
    (root : project.root = other.root) (context : Template.Context) :
    (outcome (gatherFrom project context) a).1 = (outcome (gatherFrom other context) b).1 := by
  simp only [Session.gatherFrom, root]
  split
  · have collected := beside.modules left right root
    have kept := beside.toAkin.follows
      (keeps_modulesOf fun current => current.registry project left).toFollows
      (keeps_modulesOf fun current => current.registry other right).toFollows
    simp only [outcome_bind, outcome_modulesOf, outcome_readFiles, Except.ok.injEq] at collected kept ⊢
    rw [collected]
    exact kept.reads (Completion.steady_gather _ _ _)
  · simp only [pure_bind, outcome_readFiles, Except.ok.injEq]
    exact beside.reads (Completion.steady_gather _ _ _)

theorem Beside.completeName (beside : Beside uri a b) (p : Position) :
    (outcome (completeName uri p) a).1 = (outcome (completeName uri p) b).1 := by
  refine beside.target?_bind rfl fun language project other document left right root => ?_
  cases language with
  | javascript | typescript => rfl
  | handlebars =>
    simp only
    rw [outcome_bind_of_keeps (focus?_keeps document p),
      outcome_bind_of_keeps (focus?_keeps document p), beside.focus? document p]
    rcases (outcome (Session.focus? document p) b).1 with fault | _ | focus
    · rfl
    · rfl
    · simp only
      split
      · rfl
      · refine same_bind (beside.gatherFrom left right root _) fun candidates _ => ?_
        have settings := (beside.keeps
          (follows_effect.gatherFrom left focus.context)
          (follows_effect.gatherFrom right focus.context)).settings
        simp only [outcome_bind, outcome_get, outcome_pure]
        rw [settings]

theorem Beside.typedKey? (beside : Beside uri a b) (language : Language) (project other : Project)
    (document : Document) (p : Position) :
    (outcome (typedKey? ⟨language, project, document⟩ p) a).1 =
      (outcome (typedKey? ⟨language, other, document⟩ p) b).1 := by
  simp only [outcome_typedKey?]
  rw [beside.focus? document p, beside.settings, beside.readers]

theorem Beside.completePhrase (beside : Beside uri a b) (p : Position) :
    (outcome (completePhrase uri p) a).1 = (outcome (completePhrase uri p) b).1 := by
  refine beside.target?_bind rfl fun language project other document _ _ root => ?_
  simp only
  rw [outcome_bind_of_keeps (typedKey?_keeps _ p), outcome_bind_of_keeps (typedKey?_keeps _ p),
    beside.typedKey? language project other document p]
  rcases (outcome (Session.typedKey? ⟨language, other, document⟩ p) b).1 with fault | _ | key
  · rfl
  · rfl
  · have steady : Steady .everything
        (Phrase.readCatalogue b.readers.phrases other.root b.settings.phrasesDirectory).run :=
      Phrase.steady_readCatalogue fun _ _ => ⟨rfl, rfl⟩
    refine same_bind ?_ fun catalogue _ => by simp only [outcome_pure]
    simp only [outcome_phrasesOf]
    rw [root, beside.settings, beside.readers, beside.reads steady]

/-- What is under the cursor of the document at a URI is completed in the same way. -/
theorem Beside.provide (beside : Beside uri a b) (p : Position) :
    (outcome (provide uri p) a).1 = (outcome (provide uri p) b).1 := by
  refine same_bind (beside.completeName p) fun names _ => ?_
  have beside := beside.keeps (follows_effect.completeName uri p) (follows_effect.completeName uri p)
  exact same_bind (beside.completePhrase p) fun phrases _ => by simp only [outcome_pure]

/-! ## Requests -/

theorem Akin.textFor (akin : Akin a b) (path : FilePath) (text : Option String) :
    (outcome (textFor path text) a).1 = (outcome (textFor path text) b).1 := by
  have steady : Steady .everything (readText path) := steady_readText rfl
  have same : (a.files.read path).1 = (b.files.read path).1 := akin.reads steady
  simp only [outcome_textFor]
  cases text with
  | some text => rfl
  | none => simp only [same]

/-- The same document is opened in both sessions. -/
theorem Beside.withDocument (beside : Beside uri a b) (document : Document) (p : Position) :
    (outcome (withDocument document (Session.provide uri p)) a).1 =
      (outcome (withDocument document (Session.provide uri p)) b).1 := by
  have opened : Beside uri { a with documents := a.documents.insert document }
      { b with documents := b.documents.insert document } := {
    settings := beside.settings
    workingDirectory := beside.workingDirectory
    readers := beside.readers
    documents := congrArg (·.insert document) beside.documents
    source := beside.source
    left := ⟨beside.left.files, beside.left.registry⟩
    right := ⟨beside.right.files, beside.right.registry⟩
    consulted := beside.consulted }
  simp only [outcome_withDocument]
  exact opened.provide p

/-- Once a project is chosen, and the same one owns the file in both sessions, the same is completed. -/
theorem Akin.complete (akin : Akin a b) {path : String} {p : Position} {text root : Option String}
    (chosen : (outcome (projectFor (b.workingDirectory / path).text root) a).1.map Project.root =
      (outcome (projectFor (b.workingDirectory / path).text root) b).1.map Project.root)
    (beside : Beside (Uri.ofFilePath (b.workingDirectory / path))
      (outcome (projectFor (b.workingDirectory / path).text root) a).2
      (outcome (projectFor (b.workingDirectory / path).text root) b).2) :
    (outcome (complete path p text root) a).1 = (outcome (complete path p text root) b).1 := by
  unfold Session.complete
  rw [outcome_bind, outcome_bind, outcome_absolutePath, outcome_absolutePath, akin.workingDirectory]
  simp only
  generalize b.workingDirectory / path = path at chosen beside ⊢
  rw [outcome_bind, outcome_bind]
  rcases left : outcome (projectFor path.text root) a with ⟨_ | project, after⟩ <;>
    rcases right : outcome (projectFor path.text root) b with ⟨_ | other, later⟩
  all_goals rw [left, right] at chosen beside
  · simpa [Except.map] using chosen
  · cases chosen
  · cases chosen
  · refine same_bind (beside.textFor path text) fun found _ => ?_
    exact (beside.keeps (follows_effect.textFor path text) (follows_effect.textFor path text)).withDocument _ p

/-- Once projects with the same root are chosen, the same is classified. -/
theorem Akin.classify (akin : Akin a b) {path : String} {root : Option String}
    (chosen : (outcome (projectFor (b.workingDirectory / path).text root) a).1.map Project.root =
      (outcome (projectFor (b.workingDirectory / path).text root) b).1.map Project.root) :
    (outcome (classify path root) a).1 = (outcome (classify path root) b).1 := by
  unfold Session.classify
  simp only [outcome_bind, outcome_absolutePath, akin.workingDirectory]
  have kept := akin.follows (follows_effect.projectFor (b.workingDirectory / path).text root)
    (follows_effect.projectFor (b.workingDirectory / path).text root)
  rcases left : outcome (projectFor (b.workingDirectory / path).text root) a with ⟨_ | project, after⟩ <;>
    rcases right : outcome (projectFor (b.workingDirectory / path).text root) b with ⟨_ | other, later⟩
  all_goals rw [left, right] at chosen kept
  · simpa [Except.map] using chosen
  · cases chosen
  · cases chosen
  · have known := mem_of_projectFor left
    have known' := mem_of_projectFor right
    have same := kept.layout known known' (by simpa [Except.map] using chosen)
    simp only [outcome_pure, Project.classify, (kept.left.registry project known).classifier,
      (kept.right.registry other known').classifier, same]

/-! ## Sessions that know the same projects -/

theorem Twin.addProject (twin : Twin a b) (root : FilePath) :
    (outcome (addProject root) a).1 = (outcome (addProject root) b).1 ∧
      Twin (outcome (addProject root) a).2 (outcome (addProject root) b).2 := by
  have steady : Steady .everything (b.registry.register b.readers.scripts root) :=
    ProjectRegistry.steady_register
  have same := twin.reads steady
  refine ⟨?_, twin.toAkin.follows (follows_addProject root) (follows_addProject root), ?_⟩
  all_goals simp only [outcome_addProject, twin.registry, twin.readers, same]

theorem Twin.discover (twin : Twin a b) (path : String) :
    (outcome (discover path) a).1 = (outcome (discover path) b).1 ∧
      Twin (outcome (discover path) a).2 (outcome (discover path) b).2 := by
  have steady : Steady .everything (b.registry.discover b.readers.scripts b.settings.projectMarker
      (b.workingDirectory / path)) := ProjectRegistry.steady_discover
  have same := twin.reads steady
  refine ⟨?_, twin.toAkin.follows (follows_discover path) (follows_discover path), ?_⟩
  all_goals
    simp only [outcome_discover, twin.registry, twin.settings, twin.workingDirectory, twin.readers, same]

theorem Twin.projectFor (twin : Twin a b) (path : String) (root : Option String) :
    (outcome (projectFor path root) a).1 = (outcome (projectFor path root) b).1 ∧
      Twin (outcome (projectFor path root) a).2 (outcome (projectFor path root) b).2 := by
  cases root with
  | some root =>
    rw [outcome_projectFor_root, outcome_projectFor_root, twin.workingDirectory]
    exact twin.addProject _
  | none =>
    have found := twin.discover path
    simp only [outcome_discover, Except.ok.injEq] at found
    simp only [outcome_projectFor_none, found.1, true_and]
    exact found.2

theorem Twin.modules (twin : Twin a b) (root : String) (kind : Option ModuleKind) :
    (outcome (modules root kind) a).1 = (outcome (modules root kind) b).1 := by
  unfold Session.modules
  rw [outcome_bind, outcome_bind, outcome_absolutePath, outcome_absolutePath, twin.workingDirectory]
  have added := twin.addProject (b.workingDirectory / root)
  refine same_bind added.1 fun project ended => ?_
  have left := mem_of_addProject (Prod.ext ended rfl)
  have right := mem_of_addProject (Prod.ext (added.1.symm.trans ended) rfl)
  refine same_bind (added.2.toAkin.modules left.1 right.1 rfl) fun found _ => ?_
  cases kind <;> simp only [outcome_pure]

/-- Sessions that know the same projects answer every call alike. -/
theorem Twin.call (twin : Twin a b) (call : Call) :
    (outcome call.request a).1 = (outcome call.request b).1 := by
  have mapped {α : Type} {request : Request α} (f : α → Answer)
      (same : (outcome request a).1 = (outcome request b).1) :
      (outcome (f <$> request) a).1 = (outcome (f <$> request) b).1 := by
    rw [map_eq_pure_bind]
    exact same_bind same fun _ _ => by simp only [outcome_pure]
  cases call with
  | addProject root => exact mapped _ (twin.addProject _).1
  | discover path => exact mapped _ (twin.discover path).1
  | projectFor path root => exact mapped _ (twin.projectFor path root).1
  | complete path p text root =>
    have chosen := twin.projectFor (b.workingDirectory / path).text root
    exact mapped _ (twin.complete (congrArg _ chosen.1) (chosen.2.beside _))
  | classify path root =>
    have chosen := twin.projectFor (b.workingDirectory / path).text root
    exact mapped _ (twin.classify (congrArg _ chosen.1))
  | modules root kind => exact mapped _ (twin.modules root kind)
  | refresh => rfl

end EmberAssist.Session
