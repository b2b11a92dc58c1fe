import EmberAssist.Proofs.Session.Outcome

/-! What can be asked of a session, and how the session after a request is related to the one before it. All
requests are made of a few steps, so that what is known of these is known of every request, also where it
fails. -/
namespace EmberAssist

open FileReader Request

/-- What can be asked of a session. -/
inductive Call where
  | addProject (root : String)
  | discover (path : String)
  | projectFor (path : String) (root : Option String)
  | complete (path : String) (p : Position) (text root : Option String)
  | classify (path : String) (root : Option String)
  | modules (root : String) (kind : Option ModuleKind)
  | refresh

/-- What a session answers. -/
inductive Answer where
  | project (project : Project)
  | owner (project : Option Project)
  | candidates (candidates : List Candidate)
  | appModule (found : Option AppModule)
  | appModules (found : List AppModule)
  | done

/-- The request that a call makes. -/
def Call.request : Call → Request Answer
  | addProject root => Answer.project <$> Session.addProject (.ofString root)
  | discover path => Answer.owner <$> Session.discover path
  | projectFor path root => Answer.project <$> Session.projectFor path root
  | complete path p text root => Answer.candidates <$> Session.complete path p text root
  | classify path root => Answer.appModule <$> Session.classify path root
  | modules root kind => Answer.appModules <$> Session.modules root kind
  | refresh => (fun _ => Answer.done) <$> Session.refresh

namespace Session

variable {α β : Type} {session : Session}

/-- A project that is registered is known. -/
theorem mem_of_addProject {root : FilePath} {project : Project} {later : Session}
    (ended : outcome (addProject root) session = (.ok project, later)) :
    project ∈ later.registry.projects ∧ project.root = root := by
  have known := session.registry.mem_register session.readers.scripts root session.files
  simp only [outcome_addProject, Prod.mk.injEq, Except.ok.injEq] at ended
  rwa [← ended.1, ← ended.2]

/-- The project to answer from is known. -/
theorem mem_of_projectFor {path : String} {root : Option String} {project : Project} {later : Session}
    (ended : outcome (projectFor path root) session = (.ok project, later)) :
    project ∈ later.registry.projects := by
  cases root with
  | some root =>
    rw [outcome_projectFor_root] at ended
    exact (mem_of_addProject ended).1
  | none =>
    rw [outcome_projectFor_none] at ended
    simp only [Prod.mk.injEq] at ended
    obtain ⟨chosen, rfl⟩ := ended
    split at chosen
    · rename_i found
      cases chosen
      exact ProjectRegistry.mem_of_discover found
    · cases chosen

/-- Relations between the sessions before and after the steps that requests are made of: `quiet` for those
in which no project becomes known, and `loud` where one may. -/
structure Effect (quiet loud : Session → Session → Prop) : Prop where
  refl : ∀ session, quiet session session
  trans : ∀ {before middle after}, quiet before middle → quiet middle after → quiet before after
  weaken : ∀ {before after}, quiet before after → loud before after
  behind : ∀ {before middle after}, loud before middle → quiet middle after → loud before after
  documents : ∀ {before after}, loud before after → after.documents = before.documents
  reads : ∀ {α : Type} {session} {reader : FileReader α}, Steady .everything reader →
    quiet session (outcome (readFiles reader) session).2
  collects : ∀ {session} {project : Project}, project ∈ session.registry.projects →
    quiet session (outcome (modulesOf project) session).2
  registers : ∀ {session} (root : FilePath), loud session (outcome (addProject root) session).2
  discovers : ∀ {session} (path : String), loud session (outcome (discover path) session).2
  /-- Apart from that, the relation does not see which documents are open. -/
  opens : ∀ {session later} {documents : DocumentStore}, quiet { session with documents } later →
    quiet session { later with documents := session.documents }

namespace Effect

variable {quiet loud : Session → Session → Prop} (effect : Effect quiet loud)

include effect

/-- Two steps, of which the second makes no project known. -/
theorem bind {request : Request α} {next : α → Request β}
    (first : loud session (outcome request session).2)
    (later : ∀ a middle, outcome request session = (.ok a, middle) →
      quiet middle (outcome (next a) middle).2) :
    loud session (outcome (request >>= next) session).2 := by
  rw [outcome_bind]
  rcases ended : outcome request session with ⟨fault | a, middle⟩
  all_goals rw [ended] at first
  · exact first
  · exact effect.behind first (later a middle ended)

/-! ## Completion -/

theorem gatherFrom {project : Project} (known : project ∈ session.registry.projects)
    (context : Template.Context) : quiet session (outcome (gatherFrom project context) session).2 := by
  have gathered (modules : List AppModule) (later : Session) :
      quiet later (outcome (readFiles (Completion.gather context project.root modules)) later).2 :=
    effect.reads (Completion.steady_gather _ _ _)
  simp only [Session.gatherFrom]
  split
  · exact related_bind (R := quiet) effect.trans (effect.collects known) fun _ _ _ => gathered _ _
  · exact gathered [] session

theorem completeName (uri : String) (p : Position) :
    quiet session (outcome (completeName uri p) session).2 := by
  have same := effect.refl session
  refine related_bind_of_keeps (R := quiet) same (target?_keeps uri) fun target found => ?_
  split
  · rename_i project document
    refine related_bind_of_keeps (R := quiet) same (focus?_keeps document p) fun focus _ => ?_
    split
    · exact same
    · split
      · exact same
      · have known := mem_of_consulted? (consulted?_of_target? found)
        exact related_bind (R := quiet) effect.trans (effect.gatherFrom known _)
          fun _ later _ => effect.refl later
  · exact same

theorem completePhrase (uri : String) (p : Position) :
    quiet session (outcome (completePhrase uri p) session).2 := by
  have same := effect.refl session
  refine related_bind_of_keeps (R := quiet) same (target?_keeps uri) fun target _ => ?_
  split
  · exact same
  · rename_i target _
    refine related_bind_of_keeps (R := quiet) same (typedKey?_keeps target p) fun key _ => ?_
    split
    · exact same
    · refine related_bind (R := quiet) effect.trans ?_ fun _ later _ => effect.refl later
      rw [outcome_phrasesOf]
      exact effect.reads (Phrase.steady_readCatalogue fun _ _ => ⟨rfl, rfl⟩)

theorem provide (uri : String) (p : Position) : quiet session (outcome (provide uri p) session).2 :=
  related_bind (R := quiet) effect.trans (effect.completeName uri p) fun _ _ _ =>
    related_bind (R := quiet) effect.trans (effect.completePhrase uri p) fun _ later _ =>
      effect.refl later

theorem textFor (path : FilePath) (text : Option String) :
    quiet session (outcome (textFor path text) session).2 := by
  rw [outcome_textFor]
  cases text with
  | some text => exact effect.refl session
  | none =>
    have steady : Steady .everything (readText path) := steady_readText rfl
    exact effect.reads steady

/-- A document that is open during a request is closed again. -/
theorem withDocument (closed : session.documents = .empty) (document : Document)
    {request : Request α} (inner : ∀ opened, quiet opened (outcome request opened).2) :
    quiet session (outcome (withDocument document request) session).2 := by
  let opened := { session with documents := session.documents.insert document }
  have kept : quiet opened (outcome request opened).2 := inner opened
  have same : (outcome request opened).2.documents = opened.documents :=
    effect.documents (effect.weaken kept)
  have shut : opened.documents.close document.uri = session.documents := by
    simp [opened, closed, DocumentStore.empty, DocumentStore.insert, DocumentStore.close]
  rw [outcome_withDocument]
  change quiet session { (outcome request opened).2 with
    documents := (outcome request opened).2.documents.close document.uri }
  rw [same, shut]
  exact effect.opens kept

/-! ## Calls -/

theorem projectFor (path : String) (root : Option String) :
    loud session (outcome (projectFor path root) session).2 := by
  cases root with
  | some root =>
    rw [outcome_projectFor_root]
    exact effect.registers _
  | none =>
    rw [outcome_projectFor_none]
    exact effect.discovers path

theorem complete (closed : session.documents = .empty) (path : String) (p : Position)
    (text root : Option String) : loud session (outcome (complete path p text root) session).2 := by
  refine related_bind_of_keeps (R := loud) (effect.weaken (effect.refl session)) rfl fun path _ => ?_
  refine effect.bind (effect.projectFor _ _) fun _ chosen ended => ?_
  have chose : loud session (outcome (Session.projectFor path.text root) session).2 :=
    effect.projectFor _ _
  rw [ended] at chose
  refine related_bind (R := quiet) effect.trans (effect.textFor _ _) fun found read ended => ?_
  have kept : quiet chosen (outcome (Session.textFor path text) chosen).2 := effect.textFor _ _
  rw [ended] at kept
  have closed : read.documents = .empty := by
    rw [effect.documents (effect.weaken kept), effect.documents chose, closed]
  exact effect.withDocument closed _ fun _ => effect.provide _ _

theorem classify (path : String) (root : Option String) :
    loud session (outcome (classify path root) session).2 :=
  related_bind_of_keeps (R := loud) (effect.weaken (effect.refl session)) rfl fun _ _ =>
    effect.bind (effect.projectFor _ _) fun _ later _ => effect.refl later

theorem modules (root : String) (kind : Option ModuleKind) :
    loud session (outcome (modules root kind) session).2 := by
  refine related_bind_of_keeps (R := loud) (effect.weaken (effect.refl session)) rfl fun path _ => ?_
  refine effect.bind (effect.registers path) fun project later ended => ?_
  refine related_bind (R := quiet) effect.trans (effect.collects (mem_of_addProject ended).1)
    fun found later _ => ?_
  cases kind <;> exact effect.refl later

/-- A call on a session without open documents, if it is no refresh. -/
theorem call (closed : session.documents = .empty) {call : Call} (other : call ≠ .refresh) :
    loud session (outcome call.request session).2 := by
  have mapped {α : Type} {request : Request α} (f : α → Answer)
      (first : loud session (outcome request session).2) :
      loud session (outcome (f <$> request) session).2 := by
    rw [map_eq_pure_bind]
    exact effect.bind first fun _ later _ => effect.refl later
  cases call with
  | addProject root => exact mapped _ (effect.registers _)
  | discover path => exact mapped _ (effect.discovers path)
  | projectFor path root => exact mapped _ (effect.projectFor path root)
  | complete path p text root => exact mapped _ (effect.complete closed path p text root)
  | classify path root => exact mapped _ (effect.classify path root)
  | modules root kind => exact mapped _ (effect.modules root kind)
  | refresh => exact absurd rfl other

end Effect

end Session

end EmberAssist
