import EmberAssist.Proofs.Project.Orderly
import EmberAssist.Proofs.Session.History
import EmberAssist.Readers.Usual

/-! What holds of a session between any two requests, also after those that have failed and whatever the
files have become: no document is open, the known projects are orderly, and none of them is lost or
changes its place. -/
namespace EmberAssist.Session

open ProjectRegistry Request

variable {session : Session}

/-! ## Requests and the known projects -/

/-- No project becomes known in a quiet step, and at most one in a loud one. -/
theorem extends_effect : Effect
    (fun before after => after.documents = before.documents ∧ before.registry.Extends 0 after.registry)
    (fun before after =>
      after.documents = before.documents ∧ before.registry.Extends 1 after.registry) where
  refl session := ⟨rfl, .refl 0 session.registry⟩
  trans first second := ⟨second.1.trans first.1, first.2.trans second.2⟩
  weaken quiet := ⟨quiet.1, (Extends.refl 1 _).trans quiet.2⟩
  behind first second := ⟨second.1.trans first.1, first.2.trans second.2⟩
  documents loud := loud.1
  reads {_ session _} _ := ⟨rfl, .refl 0 session.registry⟩
  collects {session _} known := ⟨rfl, extends_replace known session.files⟩
  registers {session} root := ⟨rfl,
    session.registry.extends_register session.readers.scripts root session.files⟩
  discovers {session} path := ⟨rfl, session.registry.extends_discover session.readers.scripts
    session.settings.projectMarker (session.workingDirectory / path) session.files⟩
  opens inner := ⟨rfl, inner.2⟩

/-! ## What happens to a session -/

/-- A refresh leaves every known project where it is and forgets its modules. -/
theorem registry_of_refresh (session : Session) :
    let later := (session.next (.call .refresh)).registry
    later.roots = session.registry.roots ∧ later.IsOrderly ∧
      ∀ project ∈ later.projects, project.modules = none :=
  refresh_isOrderly session.registry session.files.forget

/-- No document is open, and the known projects are orderly. -/
structure IsOrderly (session : Session) : Prop where
  documents : session.documents = .empty
  registry : session.registry.IsOrderly

theorem IsUnused.isOrderly (unused : session.IsUnused) : session.IsOrderly :=
  ⟨unused.documents, unused.registry ▸ isOrderly_empty⟩

/-- The next thing that happens makes at most one more project known, behind all others, and leaves the
session orderly. -/
theorem IsOrderly.next (orderly : session.IsOrderly) (event : Event) :
    let later := session.next event
    later.IsOrderly ∧ session.registry.roots <+: later.registry.roots ∧
      later.registry.roots.length ≤ session.registry.roots.length + 1 ∧
        (event ≠ .call .refresh → session.registry.GrowsBy 1 later.registry) := by
  have grown {later : Session} (grows : session.registry.GrowsBy 1 later.registry) :
      session.registry.roots <+: later.registry.roots ∧
        later.registry.roots.length ≤ session.registry.roots.length + 1 :=
    ⟨grows.roots, by simpa [ProjectRegistry.roots] using grows.bounded⟩
  cases event with
  | change source =>
    have grows : session.registry.GrowsBy 1 (session.next (.change source)).registry :=
      .refl 1 session.registry
    exact ⟨⟨orderly.documents, orderly.registry⟩, (grown grows).1, (grown grows).2, fun _ => grows⟩
  | call call =>
    by_cases refresh : call = .refresh
    · subst refresh
      obtain ⟨roots, registry, -⟩ := registry_of_refresh session
      exact ⟨⟨orderly.documents, registry⟩, roots ▸ List.prefix_rfl, roots ▸ Nat.le_succ _,
        fun other => absurd rfl other⟩
    · obtain ⟨documents, extended⟩ := extends_effect.call orderly.documents refresh
      obtain ⟨grows, registry⟩ := extended orderly.registry
      exact ⟨⟨documents.trans orderly.documents, registry⟩, (grown grows).1, (grown grows).2,
        fun _ => grows⟩

theorem IsOrderly.afterAll (orderly : session.IsOrderly) (events : List Event) :
    (session.afterAll events).IsOrderly ∧
      session.registry.roots <+: (session.afterAll events).registry.roots := by
  induction events generalizing session with
  | nil => exact ⟨orderly, List.prefix_rfl⟩
  | cons event events ih =>
    obtain ⟨later, roots, -⟩ := orderly.next event
    obtain ⟨last, further⟩ := ih later
    exact ⟨last, roots.trans further⟩

/-- However a session has been used, also with requests that have failed and with files that have changed:
no document is open; a project is known by its root, classifies paths by its layout and has collected
its modules with that layout; whatever comes next makes at most one more project known; the others stay
as they are, or are read again at their roots in a refresh; and none is ever lost. -/
theorem orderly_afterAll (unused : session.IsUnused) (events : List Event) :
    let used := session.afterAll events
    let refreshed := used.next (.call .refresh)
    used.documents = .empty ∧
      (∀ root project, used.registry.get? root = some project ↔
        project ∈ used.registry.projects ∧ project.root = root) ∧
      (∀ project ∈ used.registry.projects, project.classifier = ⟨project.layout⟩ ∧
        ∀ modules, project.modules = some modules →
          ∃ access, modules = (Project.collectModules project.layout access).1) ∧
      (∀ event, (used.next event).registry.roots.length ≤ used.registry.roots.length + 1 ∧
        (event ≠ .call .refresh → used.registry.GrowsBy 1 (used.next event).registry)) ∧
      (refreshed.registry.roots = used.registry.roots ∧
        ∀ project ∈ refreshed.registry.projects, project.modules = none) ∧
      ∀ more, used.registry.roots <+: (used.afterAll more).registry.roots := by
  intro used refreshed
  have orderly : used.IsOrderly := (unused.isOrderly.afterAll events).1
  obtain ⟨roots, -, forgotten⟩ := registry_of_refresh used
  refine ⟨orderly.documents, fun root project => get?_eq_some_iff,
    fun project known => ?_, fun event => ?_, ⟨roots, forgotten⟩,
    fun more => (orderly.afterAll more).2⟩
  · have sound := orderly.registry project known
    exact ⟨sound.classifier, fun modules => sound.modules⟩
  · obtain ⟨-, -, bounded, grows⟩ := orderly.next event
    exact ⟨bounded, grows⟩

/-- A project in which there is nothing to complete. -/
def bareProject : FileTable := ⟨[("/p/package.json", some "")]⟩

theorem orderly_after_failed_completion :
    let fresh := Session.start .usual .usual (.cached bareProject.source)
    let failing : Call := .complete "/p/x.hbs" ⟨0, 0⟩ none none
    let used := fresh.afterAll
      [.call failing, .change FileTable.empty.source, .call (.modules "/q" none)]
    fresh.IsUnused ∧ (outcome failing.request fresh).1.toOption.isNone = true ∧
      used.registry.roots = [.ofString "/p", .ofString "/q"] ∧ used.documents = .empty ∧
      ∀ project ∈ used.registry.projects, project.classifier = ⟨project.layout⟩ := by
  have unused : (Session.start .usual .usual (.cached bareProject.source)).IsUnused := ⟨.inr rfl, rfl, rfl⟩
  obtain ⟨closed, -, orderly, -⟩ := orderly_afterAll unused
    [.call (.complete "/p/x.hbs" ⟨0, 0⟩ none none), .change FileTable.empty.source,
      .call (.modules "/q" none)]
  exact ⟨unused, by decide +kernel, by decide +kernel, closed,
    fun project known => (orderly project known).1⟩

end EmberAssist.Session
