import EmberAssist.Proofs.Phrase.Merging
import EmberAssist.Proofs.Session.Candidates
import EmberAssist.Readers.Usual

/-! What is offered of the phrases of a project. The files of all locales are merged into one catalogue, in
which nothing is lost and the order of the files is kept, and the keys that begin with what has been typed are
offered in the order of the catalogue. -/
namespace EmberAssist.Session

open Phrase Request

variable {session : Session} {uri : String} {p : Position}

/-- Where a key is being typed, its candidates are those in the catalogue of the project. -/
theorem outcome_completePhrase {target : Target} {key : Completion.TypedKey} {catalogue : Catalogue}
    (targeted : (outcome (target? uri) session).1 = .ok (some target))
    (typed : (outcome (typedKey? target p) session).1 = .ok (some key))
    (read : ((readCatalogue session.readers.phrases target.project.root
      session.settings.phrasesDirectory).run session.files).1 = .ok catalogue) :
    (outcome (completePhrase uri p) session).1 = .ok (Completion.keyCandidates catalogue key) := by
  unfold completePhrase
  rw [outcome_bind_of_keeps (target?_keeps uri), targeted]
  simp only
  rw [outcome_bind_of_keeps (typedKey?_keeps target p), typed]
  simp only
  rw [outcome_bind, outcome_phrasesOf]
  simp only [read]
  rfl

/-- If the phrases of a project can be read, they are merged without loss and in order: the keys of the
catalogue are the different keys of the phrases in all files, in the order in which they come first, and each
has all of its texts in the order in which they come. Of these keys exactly those are offered that begin with
what has been typed, one candidate for each and in the same order. -/
theorem readCatalogue_merges {reader : Reader} {access : FileAccess} {root : FilePath} {directory : String}
    {catalogue : Catalogue} (read : ((readCatalogue reader root directory).run access).1 = .ok catalogue) :
    let phrases := phrasesBelow reader access.view (root / directory)
    catalogue = (keysOf phrases).map (fun key => (key, textsOf phrases key)) ∧
      ∀ {session : Session} {uri : String} {p : Position} {target : Target} {key : Completion.TypedKey},
        session.readers.phrases = reader → session.files = access →
          session.settings.phrasesDirectory = directory → target.project.root = root →
            (outcome (target? uri) session).1 = .ok (some target) →
              (outcome (typedKey? target p) session).1 = .ok (some key) →
                ∃ candidates, (outcome (completePhrase uri p) session).1 = .ok candidates ∧
                  List.Forall₂ (Offers phrases key.start) (keysBeginning phrases key.typed) candidates := by
  intro phrases
  have merged : catalogue = (keysOf phrases).map fun key => (key, textsOf phrases key) :=
    eq_of_readCatalogue read
  refine ⟨merged, ?_⟩
  intro session uri p target key readers files settings project targeted typed
  subst readers files settings project
  refine ⟨_, outcome_completePhrase targeted typed read, ?_⟩
  rw [merged]
  exact offers_keyCandidates phrases key

/-- A project whose files share keys and locales. One file spells the same key in two ways, and two files hold no
phrases. -/
def farewells : FileSource where
  list _ := ["de.json", "en.json", "fr.json", "it.json", "more/de.json"]
  read path := [
    ("/p/translations/de.json", "\x7b\"bye.now\": \"Tschau\", \"bye\": \x7b\"now\": \"Ade\"\x7d\x7d"),
    ("/p/translations/en.json", "\x7b\"hi\": \"Hi\", \"bye\": \x7b\"now\": \"Bye\", \"all\": null\x7d\x7d"),
    ("/p/translations/fr.json", "\x7b"),
    ("/p/translations/it.json", "[1]"),
    ("/p/translations/more/de.json", "\x7b\"bye\": \x7b\"all\": \"Tschau\"\x7d, \"hi\": 0\x7d")].lookup path.text

theorem readCatalogue_merges_locales :
    let known := (Session.start .usual .usual (.cached farewells)).afterAll [.call (.addProject "/p")]
    let document : Document := ⟨"file:///p/x.hbs", "\x7b\x7bt \"bye\"\x7d\x7d".toList, 0⟩
    let opened : Session := { known with documents := known.documents.insert document }
    ∃ catalogue target key candidates,
      ((readCatalogue .usual (.ofString "/p") "translations").run opened.files).1 = .ok catalogue ∧
        catalogue = [("bye.now", [⟨"de", "Tschau"⟩, ⟨"de", "Ade"⟩, ⟨"en", "Bye"⟩]),
          ("hi", [⟨"en", "Hi"⟩, ⟨"de", "0"⟩]), ("bye.all", [⟨"de", "Tschau"⟩])] ∧
        opened.settings.phrasesDirectory = "translations" ∧ target.project.root = .ofString "/p" ∧
        (outcome (target? "file:///p/x.hbs") opened).1 = .ok (some target) ∧
        (outcome (typedKey? target ⟨0, 8⟩) opened).1 = .ok (some key) ∧
        (outcome (completePhrase "file:///p/x.hbs" ⟨0, 8⟩) opened).1 = .ok candidates ∧
        candidates.map (fun candidate => (candidate.label, candidate.detail)) =
          [("bye.now", "de : Tschau"), ("bye.all", "de : Tschau")] := by
  intro known document opened
  have read : ((readCatalogue .usual (.ofString "/p") "translations").run opened.files).1 =
      .ok [("bye.now", [⟨"de", "Tschau"⟩, ⟨"de", "Ade"⟩, ⟨"en", "Bye"⟩]),
        ("hi", [⟨"en", "Hi"⟩, ⟨"de", "0"⟩]), ("bye.all", [⟨"de", "Tschau"⟩])] := by
    decide +kernel
  have found : (outcome (target? "file:///p/x.hbs") opened).1.toOption.bind (fun target =>
      target.map fun target => (target.language, target.document, target.project.root)) =
        some (.handlebars, document, .ofString "/p") := by
    decide +kernel
  simp only [Option.bind_eq_some_iff, Option.map_eq_some_iff, Prod.mk.injEq] at found
  obtain ⟨_, targeted, target, rfl, template, same, root⟩ := found
  have targeted : (outcome (target? "file:///p/x.hbs") opened).1 = .ok (some target) := by
    cases given : (outcome (target? "file:///p/x.hbs") opened).1 <;> rw [given] at targeted <;>
      cases targeted
    rfl
  have typed : (outcome (typedKey? target ⟨0, 8⟩) opened).1 = .ok (some ⟨"bye", ⟨0, 5⟩⟩) := by
    rw [outcome_typedKey?, if_pos template, same, outcome_focus?]
    -- The descent to the focus is by well-founded recursion. As a fold it computes.
    simp only [Template.focusAt, Template.Node.trailTo?_eq_fold]
    decide +kernel
  have beginning : keysBeginning (phrasesBelow .usual opened.files.view
      (FilePath.ofString "/p" / "translations")) "bye" = ["bye.now", "bye.all"] := by
    decide +kernel
  have remark : ∀ known ∈ ["bye.now", "bye.all"], ∀ first, (textsOf (phrasesBelow .usual opened.files.view
      (FilePath.ofString "/p" / "translations")) known).head? = some first →
        first.locale ++ " : " ++ first.text = "de : Tschau" := by
    decide +kernel
  obtain ⟨-, offered⟩ := readCatalogue_merges read
  obtain ⟨candidates, answered, offers⟩ := offered rfl rfl rfl root targeted typed
  rw [beginning] at offers
  refine ⟨_, target, _, candidates, read, rfl, rfl, root, targeted, typed, answered, ?_⟩
  cases offers with
  | cons now rest =>
    cases rest with
    | cons all rest =>
      cases rest
      obtain ⟨first, told, detail⟩ := now.detail
      obtain ⟨other, toldOther, detailOther⟩ := all.detail
      rw [remark _ (by simp) first told] at detail
      rw [remark _ (by simp) other toldOther] at detailOther
      simp [now.label, all.label, detail, detailOther]

end EmberAssist.Session
