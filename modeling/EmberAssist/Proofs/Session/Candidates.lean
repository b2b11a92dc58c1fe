import EmberAssist.Proofs.Completion.Labels
import EmberAssist.Proofs.Session.History
import EmberAssist.Proofs.Template.Resolution

/-! What a session offers under a cursor. A focus names either something that a project knows or a phrase,
so that one of the two kinds of candidates is always missing, and no two candidates have the same
label. -/
namespace EmberAssist

/-! ## What a focus can name -/

namespace Template.Trail

variable {α : Type} [NodeLike α] {trail : Trail α} {call : Call α}

/-- A string is no path. -/
theorem isAtPath_of_isAtString (string : trail.isAtString = true) : trail.isAtPath = false := by
  unfold isAtString at string
  unfold isAtPath
  cases focus : trail.focus? with
  | none => rfl
  | some visit =>
    rw [focus, Option.bind_some] at string
    rw [Option.bind_some]
    cases layer : visit.layer <;> simp_all [pathSpelling?, stringValue?]

/-- Nothing is invoked by the names of two helpers. -/
theorem calls_linkHelper_of_phraseHelper (phrase : calls call phraseHelper = true) :
    calls call linkHelper = false := by
  unfold calls at phrase ⊢
  rw [eq_of_beq phrase]
  decide

/-- Where a phrase is named, nothing else can be completed. -/
theorem context_of_isPhraseKey (key : trail.isPhraseKey = true) : trail.context = .none := by
  unfold isPhraseKey at key
  cases above : trail.parentLayer? with
  | none => simp [above] at key
  | some layer =>
    cases layer with
    | mustache call trusting =>
      simp only [above, Bool.and_eq_true] at key
      have path := isAtPath_of_isAtString key.1.1
      have link := calls_linkHelper_of_phraseHelper key.2
      simp [context, isMustachePath, isBlockPath, isSubExpressionPath, isLinkTarget, above, path, link]
    | subExpression call =>
      simp only [above, Bool.and_eq_true] at key
      have path := isAtPath_of_isAtString key.1.1
      simp [context, isMustachePath, isBlockPath, isSubExpressionPath, isLinkTarget, above, path]
    | _ => simp [above] at key

end Template.Trail

/-- A key is typed only where a phrase is named. -/
theorem Completion.isPhraseKey_of_typedKeyAt? {placeholder : String} {document : Document}
    {trail : Template.Trail (Template.Node Range)} {key : TypedKey}
    (typed : typedKeyAt? placeholder document trail = .ok (some key)) : trail.isPhraseKey = true := by
  cases phrase : trail.isPhraseKey with
  | true => rfl
  | false =>
    unfold typedKeyAt? at typed
    rw [phrase] at typed
    split at typed
    · split at typed <;> cases typed
    · cases typed

namespace Session

open Candidate (Distinct)
open Request

variable {session middle after : Session} {uri : String} {p : Position}

/-! ## Names -/

theorem distinct_gatherFrom {project : Project} {context : Template.Context}
    {candidates : List Candidate}
    (gathered : outcome (gatherFrom project context) session = (.ok candidates, after)) :
    Distinct candidates := by
  have read {modules : List AppModule} {later : Session}
      (ended : outcome (readFiles (Completion.gather context project.root modules)) later =
        (.ok candidates, after)) : Distinct candidates := by
    cases ended
    exact Completion.distinct_gather _ _ _ _
  simp only [gatherFrom] at gathered
  split at gathered
  · obtain ⟨modules, later, -, ended⟩ := bind_eq_ok gathered
    exact read ended
  · exact read gathered

/-- The names that are offered have different labels, and if there are any, the focus is in a template
where names can be completed. -/
theorem names_of_completeName {names : List Candidate}
    (answered : outcome (completeName uri p) session = (.ok names, after)) :
    Distinct names ∧ (names = [] ∨ ∃ project document focus,
      (outcome (target? uri) session).1 = .ok (some ⟨.handlebars, project, document⟩) ∧
        (outcome (focus? document p) session).1 = .ok (some focus) ∧ focus.context ≠ .none) := by
  obtain ⟨target, targeted, answered⟩ := bind_eq_ok_of_keeps (target?_keeps uri) answered
  split at answered
  · rename_i project document
    obtain ⟨focus, found, answered⟩ := bind_eq_ok_of_keeps (focus?_keeps document p) answered
    cases focus with
    | none =>
      cases answered
      exact ⟨List.nodup_nil, .inl rfl⟩
    | some focus =>
      simp only at answered
      split at answered
      · cases answered
        exact ⟨List.nodup_nil, .inl rfl⟩
      · rename_i offered
        obtain ⟨candidates, later, gathered, ranked⟩ := bind_eq_ok answered
        cases ranked
        exact ⟨Completion.distinct_rank (distinct_gatherFrom gathered) _,
          .inr ⟨project, document, focus, targeted, found, offered⟩⟩
  · cases answered
    exact ⟨List.nodup_nil, .inl rfl⟩

/-! ## Phrases -/

theorem nodup_keys_phrasesOf {project : Project} {catalogue : Phrase.Catalogue}
    (read : outcome (phrasesOf project) session = (.ok catalogue, after)) : catalogue.keys.Nodup := by
  rw [outcome_phrasesOf] at read
  simp only [Prod.mk.injEq] at read
  obtain ⟨read, -⟩ := read
  split at read
  · rename_i told
    cases read
    exact Phrase.nodup_keys_readCatalogue told
  · cases read

/-- The phrases that are offered are those for the key that is being typed. -/
theorem keyCandidates_of_completePhrase {phrases : List Candidate}
    (answered : outcome (completePhrase uri p) session = (.ok phrases, after)) :
    phrases = [] ∨ ∃ target key catalogue, (outcome (target? uri) session).1 = .ok (some target) ∧
      (outcome (typedKey? target p) session).1 = .ok (some key) ∧
        outcome (phrasesOf target.project) session = (.ok catalogue, after) ∧
          phrases = Completion.keyCandidates catalogue key := by
  obtain ⟨target, targeted, answered⟩ := bind_eq_ok_of_keeps (target?_keeps uri) answered
  cases target with
  | none =>
    cases answered
    exact .inl rfl
  | some target =>
    obtain ⟨key, typed, answered⟩ := bind_eq_ok_of_keeps (typedKey?_keeps target p) answered
    cases key with
    | none =>
      cases answered
      exact .inl rfl
    | some key =>
      obtain ⟨catalogue, later, read, collected⟩ := bind_eq_ok answered
      cases collected
      exact .inr ⟨target, key, catalogue, targeted, typed, read, rfl⟩

/-- The phrases that are offered have different labels, and if there are any, a key is being typed. -/
theorem phrases_of_completePhrase {phrases : List Candidate}
    (answered : outcome (completePhrase uri p) session = (.ok phrases, after)) :
    Distinct phrases ∧ (phrases = [] ∨ ∃ target key,
      (outcome (target? uri) session).1 = .ok (some target) ∧
        (outcome (typedKey? target p) session).1 = .ok (some key)) := by
  rcases keyCandidates_of_completePhrase answered with
    rfl | ⟨target, key, catalogue, targeted, typed, read, rfl⟩
  · exact ⟨List.nodup_nil, .inl rfl⟩
  · exact ⟨Completion.distinct_keyCandidates (nodup_keys_phrasesOf read) key,
      .inr ⟨target, key, targeted, typed⟩⟩

/-! ## One kind of candidates -/

/-- While the same documents are open, one is found in the same language and with the same text. -/
theorem target?_of_documents {target other : Target} (same : middle.documents = session.documents)
    (found : (outcome (target? uri) session).1 = .ok (some target))
    (again : (outcome (target? uri) middle).1 = .ok (some other)) :
    other.language = target.language ∧ other.document = target.document := by
  rw [outcome_target?] at found again
  rw [same] at again
  cases decoded : Uri.toFilePath? uri with
  | error fault => simp [decoded] at found
  | ok path =>
    cases path with
    | none => simp [decoded] at found
    | some path =>
      simp only [decoded] at found again
      split at found
      · rename_i language project document spoken owned opened
        rw [spoken, opened] at again
        split at again
        · cases found
          cases again
          simp_all
        · cases again
      · cases found

/-- Under one cursor there are names or phrases, but not both. -/
theorem names_or_phrases {names phrases : List Candidate}
    (named : outcome (completeName uri p) session = (.ok names, middle))
    (phrased : outcome (completePhrase uri p) middle = (.ok phrases, after)) :
    names = [] ∨ phrases = [] := by
  have keeps : Keeps session (outcome (completeName uri p) session).2 := follows_effect.completeName uri p
  rw [named] at keeps
  obtain ⟨-, none | ⟨project, document, focus, targeted, found, offered⟩⟩ :=
    names_of_completeName named
  · exact .inl none
  obtain ⟨-, none | ⟨target, key, again, typed⟩⟩ := phrases_of_completePhrase phrased
  · exact .inr none
  obtain ⟨language, opened⟩ := target?_of_documents keeps.documents targeted again
  rw [outcome_focus?] at found
  rw [outcome_typedKey?, if_pos language, opened, outcome_focus?, keeps.readers, keeps.settings] at typed
  simp only at found typed
  rw [found] at typed
  simp only at typed
  split at typed
  · rename_i told
    cases typed
    exact absurd (Template.Trail.context_of_isPhraseKey (Completion.isPhraseKey_of_typedKeyAt? told)) offered
  · cases typed

/-- What is offered is the names and behind them the phrases. One of the two are missing, as nothing that
can be in focus is the place of both, and no two candidates have the same label. -/
theorem distinct_provide (session : Session) (uri : String) (p : Position) :
    (∀ {candidates : List Candidate} {after : Session},
      outcome (provide uri p) session = (.ok candidates, after) →
        Distinct candidates ∧ ∃ names phrases middle,
          outcome (completeName uri p) session = (.ok names, middle) ∧
            outcome (completePhrase uri p) middle = (.ok phrases, after) ∧
              candidates = names ++ phrases ∧ (names = [] ∨ phrases = [])) ∧
      ∀ {α : Type} [Template.NodeLike α] (trail : Template.Trail α),
        trail.context = .none ∨ trail.isPhraseKey = false := by
  constructor
  · intro candidates after answered
    obtain ⟨names, middle, named, answered⟩ := bind_eq_ok answered
    obtain ⟨phrases, later, phrased, joined⟩ := bind_eq_ok answered
    cases joined
    have one := names_or_phrases named phrased
    refine ⟨?_, names, phrases, middle, named, phrased, rfl, one⟩
    rcases one with rfl | rfl
    · exact (phrases_of_completePhrase phrased).1
    · rw [List.append_nil]
      exact (names_of_completeName named).1
  · intro α _ trail
    cases key : trail.isPhraseKey with
    | true => exact .inl (Template.Trail.context_of_isPhraseKey key)
    | false => exact .inr rfl

/-- A project with one phrase. -/
def greeting : FileTable :=
  ⟨[("/p/package.json", some ""), ("/p/translations/en.json", some "\x7b\"hello\": \"Hi\"\x7d")]⟩

theorem distinct_provide_in_phrase_helper :
    let known := (Session.start .usual .usual (.cached greeting.source)).afterAll [.call (.addProject "/p")]
    let document : Document := ⟨"file:///p/x.hbs", "\x7b\x7bt \"\"\x7d\x7d".toList, 0⟩
    let opened : Session := { known with documents := known.documents.insert document }
    ∃ candidates after, outcome (provide "file:///p/x.hbs" ⟨0, 5⟩) opened = (.ok candidates, after) ∧
      candidates.map Candidate.label = ["hello"] ∧ Distinct candidates := by
  intro known document opened
  -- The descent to the focus is by well-founded recursion. As a fold it computes.
  have told : (outcome (provide "file:///p/x.hbs" ⟨0, 5⟩) opened).1.toOption.map
      (List.map Candidate.label) = some ["hello"] := by
    simp only [provide, completeName, completePhrase, typedKey?, focus?, Template.focusAt,
      Template.Node.trailTo?_eq_fold]
    decide +kernel
  rcases ended : outcome (provide "file:///p/x.hbs" ⟨0, 5⟩) opened with ⟨fault | candidates, after⟩
  · rw [ended] at told
    cases told
  · rw [ended] at told
    exact ⟨candidates, after, rfl, Option.some.inj told, ((distinct_provide opened _ _).1 ended).1⟩

end Session

end EmberAssist
