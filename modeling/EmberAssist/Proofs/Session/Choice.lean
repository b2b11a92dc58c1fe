import EmberAssist.Proofs.Document.Uri
import EmberAssist.Proofs.Session.Agreement
import EmberAssist.Proofs.Session.Refresh

/-! Which project a request is answered from. Without a root it is the known project that owns the path,
and only where there is none the one at the nearest marked directory above. A completion looks for the
owner once more, from the URI of its document. -/
namespace EmberAssist.Session

open FileReader Request ProjectRegistry

variable {session a b : Session} {path : String}

/-- The root that is found for a path among the known ones and the marked ones. -/
def rootFor? (session : Session) (path : FilePath) : Option FilePath :=
  ((session.registry.owner? path).map Project.root).or
    (firstMarked? session.files.source session.settings.projectMarker path.parents)

/-- What is found for a path is at the root of the project that owns it, and else at the nearest marked
directory above. -/
theorem root_discover (current : session.IsCurrent) (path : String) :
    (outcome (discover path) session).1.map (Option.map Project.root) =
      .ok (session.rootFor? (session.workingDirectory / path)) := by
  have steady : Steady .everything (session.registry.discover session.readers.scripts
      session.settings.projectMarker (session.workingDirectory / path)) := ProjectRegistry.steady_discover
  simp only [outcome_discover]
  rw [steady.answer current.files, told_discover, rootFor?]
  cases session.registry.owner? (session.workingDirectory / path) with
  | some project => rfl
  | none =>
    cases firstMarked? session.files.source session.settings.projectMarker
      (session.workingDirectory / path).parents with
    | none => rfl
    | some directory =>
      have root := (session.registry.mem_register session.readers.scripts directory
        (.direct session.files.source)).2
      exact congrArg (Except.ok ∘ some) root

/-- For a document that is completed in, the file is the one that was asked for. -/
theorem consulted?_ofFilePath {place : FilePath} (absolute : place.isAbsolute = true) :
    session.consulted? (Uri.ofFilePath place) = session.registry.owner? place := by
  simp only [consulted?, Uri.toFilePath?_ofFilePath absolute, FilePath.ofString_text]

theorem projectFor_root (current : session.IsCurrent) (path : String) :
    (outcome (projectFor path none) session).1.map Project.root =
      match session.rootFor? (session.workingDirectory / path) with
      | some root => .ok root
      | none => .error (.noProject path) := by
  have found := root_discover current path
  simp only [outcome_projectFor_none]
  simp only [outcome_discover, Except.map, Except.ok.injEq] at found
  rw [← found]
  cases (session.registry.discover session.readers.scripts session.settings.projectMarker
    (session.workingDirectory / path) session.files).1.1 <;> rfl

/-- The project that is found for a path owns it from then on, and if none is found, it has no owner. -/
theorem owner?_projectFor {place : FilePath} (absolute : place.isAbsolute = true) (session : Session) :
    (outcome (projectFor place.text none) session).2.registry.owner? place =
      (outcome (projectFor place.text none) session).1.toOption := by
  have here : session.workingDirectory / place.text = place := FilePath.append_text absolute _
  simp only [outcome_projectFor_none, here]
  rw [owner?_discover absolute]
  cases (session.registry.discover session.readers.scripts session.settings.projectMarker place
    session.files).1.1 <;> rfl

/-- Two sessions complete and classify at a path alike, also where they fail. -/
def AnswerAlike (path : String) (a b : Session) : Prop :=
  (∀ p text, (outcome (complete path p text none) a).1 = (outcome (complete path p text none) b).1) ∧
    (outcome (classify path none) a).1 = (outcome (classify path none) b).1

/-- Where the same root is found for a path in two sessions, they answer alike. -/
theorem answers_of_rootFor?_eq (akin : Akin a b)
    (absolute : (b.workingDirectory / path).isAbsolute = true)
    (root : a.rootFor? (b.workingDirectory / path) = b.rootFor? (b.workingDirectory / path)) :
    AnswerAlike path a b := by
  generalize placed : b.workingDirectory / path = place at *
  have here (session : Session) : session.workingDirectory / place.text = place :=
    FilePath.append_text absolute _
  have chosen : (outcome (projectFor place.text none) a).1.map Project.root =
      (outcome (projectFor place.text none) b).1.map Project.root := by
    rw [projectFor_root akin.left, projectFor_root akin.right, here, here, root]
  have owner (session : Session) :
      ((outcome (projectFor place.text none) session).2.registry.owner? place).map Project.root =
        ((outcome (projectFor place.text none) session).1.map Project.root).toOption := by
    rw [owner?_projectFor absolute]
    cases (outcome (projectFor place.text none) session).1 <;> rfl
  have beside : Beside (Uri.ofFilePath place) (outcome (projectFor place.text none) a).2
      (outcome (projectFor place.text none) b).2 :=
    ⟨akin.follows (follows_effect.projectFor _ _) (follows_effect.projectFor _ _), by
      rw [consulted?_ofFilePath absolute, consulted?_ofFilePath absolute, owner, owner, chosen]⟩
  subst placed
  exact ⟨fun p text => akin.complete chosen beside, akin.classify chosen⟩

/-- Whatever was asked for before, a path answers to the deepest of the known projects that it is inside
of, and only where there is none to the one at the nearest marked directory above. Completions and
classifications are those of a new session on which no other project has been registered, and those of
a new session as it is if there is no such project or the nearest marked directory is its root. -/
theorem answers_from_owner (unused : session.IsUnused)
    (absolute : session.workingDirectory.isAbsolute = true) (calls : List Call) (path : String) :
    let used := session.afterAll (calls.map .call)
    let place := session.workingDirectory / path
    let owner := deepestAround? place used.registry.roots
    let nearest := firstMarked? session.files.source session.settings.projectMarker place.parents
    (outcome (discover path) used).1.map (Option.map Project.root) = .ok (owner.or nearest) ∧
      AnswerAlike path used (session.addProjects owner.toList) ∧
        (owner = none ∨ owner = nearest → AnswerAlike path used session) := by
  intro used place owner nearest
  have follows : Follows session used := follows_calls unused.documents calls
  have found : used.rootFor? place = owner.or nearest := by
    rw [rootFor?, root_owner?, follows.source, follows.settings]
  have alike {other : Session} (added : Follows session other)
      (same : other.rootFor? place = owner.or nearest) : AnswerAlike path used other := by
    have here : other.workingDirectory / path = place := by rw [added.workingDirectory]
    refine answers_of_rootFor?_eq ((Akin.refl unused.isCurrent).follows follows added) ?_ ?_
    · rw [here]
      exact FilePath.isAbsolute_append absolute path
    · rw [here, found, same]
  have fresh : session.rootFor? place = nearest := by
    rw [rootFor?, root_owner?, unused.registry]
    rfl
  refine ⟨?_, alike (follows_addProjects session _) ?_, fun unowned => alike (.refl session) ?_⟩
  · have := root_discover (follows.current unused.isCurrent) path
    rwa [follows.workingDirectory, found] at this
  · cases owned : owner with
    | none => exact fresh
    | some root =>
      obtain ⟨project, holds, rfl⟩ := Option.map_eq_some_iff.mp ((root_owner? _ _).trans owned)
      have inside := (owner?_eq_some holds).2.1
      have empty : session.registry.projects = [] := by rw [unused.registry]; rfl
      have known : (session.addProjects [project.root]).registry.roots = [project.root] := by
        rw [roots, projects_addProjects unused.isCurrent (by simp [empty, roots]), empty]
        rfl
      rw [rootFor?, Option.toList_some, root_owner?, known]
      simp [deepestAround?, inside]
  · rw [fresh]
    rcases unowned with none | same
    · rw [none]
      rfl
    · rw [same]
      cases nearest <;> rfl

/-- A project inside of another one, as packages of a workspace are. -/
def nestedProjects : FileTable :=
  ⟨[("/p/package.json", some ""), ("/p/node_modules/y/package.json", some "")]⟩

theorem answers_from_outer_project :
    let fresh := Session.start .usual .usual (.cached nestedProjects.source)
    let used := fresh.afterAll ([.classify "/p/app/helpers/a.js" none].map .call)
    fresh.IsUnused ∧ fresh.workingDirectory.isAbsolute = true ∧
      AnswerAlike "/p/node_modules/y/app/helpers/b.js" used (fresh.addProjects [.ofString "/p"]) := by
  intro fresh used
  have unused : fresh.IsUnused := ⟨.inr rfl, rfl, rfl⟩
  have owner : deepestAround? (fresh.workingDirectory / "/p/node_modules/y/app/helpers/b.js")
      used.registry.roots = some (.ofString "/p") := by decide +kernel
  have alike := (answers_from_owner unused rfl [.classify "/p/app/helpers/a.js" none]
    "/p/node_modules/y/app/helpers/b.js").2.1
  rw [owner] at alike
  exact ⟨unused, rfl, alike⟩

/-- A project that is known further up hides the one that a new session finds. -/
theorem classify_behind_outer_project :
    let fresh := Session.start .usual .usual (.cached nestedProjects.source)
    let used := fresh.afterAll [.call (.classify "/p/app/helpers/a.js" none)]
    let path := "/p/node_modules/y/app/helpers/b.js"
    (outcome (classify path none) fresh).1.toOption = some (some ⟨['b'], .helper⟩) ∧
      (outcome (classify path none) used).1.toOption = some none ∧
      firstMarked? nestedProjects.source Settings.usual.projectMarker
        (FilePath.ofString path).parents = some (.ofString "/p/node_modules/y") ∧
      (outcome (discover path) used).1.toOption.map (Option.map Project.root) =
        some (some (.ofString "/p")) := by
  decide +kernel

/-! ## The project that a completion consults -/

theorem registry_textFor (session : Session) (path : FilePath) (text : Option String) :
    (outcome (textFor path text) session).2.registry = session.registry := by
  rw [outcome_textFor]
  cases text <;> rfl

/-- Once a project has been chosen for a file and the file has been opened, names and phrases are looked
for in the deepest of the known projects that the file is inside of. That is the chosen project if it
has been found for the path; if its root was given, it has to contain the file, and so deep must no
other known project do that. -/
theorem consulted_project_of_chosen {place : FilePath} {root text : Option String} {found : String}
    {chosen : Project} {after read : Session} (absolute : place.isAbsolute = true)
    (chose : outcome (projectFor place.text root) session = (.ok chosen, after))
    (given : outcome (textFor place text) after = (.ok found, read)) (p : Position) :
    let uri := Uri.ofFilePath place
    let opened := { read with documents := read.documents.insert ⟨uri, found.toList, 0⟩ }
    let later := (outcome (completeName uri p) opened).2
    (root = none → opened.consulted? uri = some chosen) ∧
      (isInside chosen.root place = true →
        (∀ other ∈ opened.registry.projects, isInside other.root place = true → other ≠ chosen →
          other.root.text.length < chosen.root.text.length) → opened.consulted? uri = some chosen) ∧
      (opened.consulted? uri = some chosen → isInside chosen.root place = true ∧
        ∀ other ∈ opened.registry.projects, isInside other.root place = true →
          other.root.text.length ≤ chosen.root.text.length) ∧
      (later.consulted? uri).map Project.root = (opened.consulted? uri).map Project.root := by
  intro uri opened later
  have kept : opened.registry = after.registry := by
    have := registry_textFor after place text
    rwa [given] at this
  have known : chosen ∈ opened.registry.projects := kept ▸ mem_of_projectFor chose
  have consulted : opened.consulted? uri = opened.registry.owner? place :=
    consulted?_ofFilePath absolute
  rw [consulted]
  refine ⟨?_, fun inside alone => owner?_of_deepest known inside alone,
    fun owned => (owner?_eq_some owned).2, ?_⟩
  · rintro rfl
    have owned := owner?_projectFor absolute session
    rw [chose] at owned
    exact kept ▸ owned
  · rw [← consulted, root_consulted?, root_consulted?, (follows_effect.completeName uri p).roots]

theorem consulted_project_of_discovery :
    let fresh := Session.start .usual .usual (.cached nestedProjects.source)
    let place := FilePath.ofString "/p/node_modules/y/x.hbs"
    let uri := Uri.ofFilePath place
    place.isAbsolute = true ∧ ∃ chosen after,
      outcome (projectFor place.text none) fresh = (.ok chosen, after) ∧
        outcome (textFor place (some "")) after = (.ok "", after) ∧
          consulted? { after with documents := after.documents.insert ⟨uri, [], 0⟩ } uri =
            some chosen := by
  intro fresh place uri
  have absolute : place.isAbsolute = true := by decide +kernel
  have found : (outcome (projectFor place.text none) fresh).1.toOption.isSome = true := by
    decide +kernel
  rcases ended : outcome (projectFor place.text none) fresh with ⟨fault | chosen, after⟩
  · rw [ended] at found
    cases found
  · have given : outcome (textFor place (some "")) after = (.ok "", after) := outcome_textFor _ _
    have consulted := (consulted_project_of_chosen absolute ended given ⟨0, 0⟩).1 rfl
    exact ⟨absolute, chosen, after, rfl, given, consulted⟩

/-- A root is given, and a project below it is known already. -/
theorem consulted_project_behind_deeper_root :
    let place := FilePath.ofString "/p/sub/x.hbs"
    let used := (Session.start .usual .usual (.cached FileTable.empty.source)).addProjects
      [.ofString "/p/sub"]
    let chosen := outcome (projectFor place.text (some "/p")) used
    chosen.1.toOption.map Project.root = some (.ofString "/p") ∧
      (chosen.2.consulted? (Uri.ofFilePath place)).map Project.root = some (.ofString "/p/sub") := by
  decide +kernel

end EmberAssist.Session
