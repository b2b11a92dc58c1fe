import EmberAssist.Proofs.Document.Wire
import EmberAssist.Proofs.Session.Candidates
import EmberAssist.Proofs.Template.Offered

/-! Where the keys of phrases are completed. The place is read off the tree of a text with a placeholder in
it, but it is a place of the text without one: right behind the quote that opens the string under the
cursor. -/
namespace EmberAssist

open Template (Node Trail Visit focusAt insertPlaceholder parse)

variable {document : Document} {p : Position} {patched : List Char} {begun : Nat}
variable {trail : Trail (Node Range)} {visit : Visit (Node Range)}

/-! ## The string under the cursor -/

/-- A string of a patched text begins at an offset, where its opening quote stands. The text that was
patched has the quote at the same offset, and in both texts the offset has the same position. -/
structure OpensAt (document : Document) (patched : List Char) (node : Node Range) (begun : Nat) :
    Prop where
  string : ∃ value spelling, node.layer = .stringLiteral value spelling
  quoted : ∃ quote, (quote = '\'' ∨ quote = '"') ∧ document.chars[begun]? = some quote ∧
    patched[begun]? = some quote
  placed : ∃ range, node.range = some range ∧
    range.start = Text.positionOf document.starts begun ∧
    range.start = Text.positionOf (Text.lineStarts patched) begun

/-- A string in focus begins before the cursor. -/
theorem exists_opensAt (gives : focusAt parse Settings.usual.placeholder document p = .ok (some trail))
    (string : trail.isAtString = true) :
    ∃ visit begun, trail.focus? = some visit ∧ begun < document.offsetAt p ∧ OpensAt document
      (insertPlaceholder document.chars (document.offsetAt p) Settings.usual.placeholder.toList)
      visit.node begun := by
  obtain ⟨front, back, cut⟩ := Template.exists_cut document p
  obtain ⟨tail, typed, -⟩ := Template.placeholder_eq
  obtain ⟨spans, visit, parsed, focus, ⟨node, around⟩, -⟩ := cut.focusAt typed (by decide) gives
  have layer : visit.layer = node.layer.map (Node.inText _) := around.layer
  rw [Trail.isAtString, focus, Option.bind_some, layer, Template.stringValue?_map] at string
  obtain ⟨shows, ⟨address, found⟩, place, placed, first, -⟩ := around
  obtain ⟨before, quote, raw, value, after, stands⟩ :=
    (Template.parseSpans_origin parsed found).string string
  have plain := fun c member => (Template.placeholder_plain c member).2
  obtain ⟨early, rfl⟩ := stands.begins_before plain (by simp [typed]) placed first
  have unended : ∀ c ∈ Settings.usual.placeholder.toList.head?, c ≠ '\n' := by
    rw [typed]
    rintro c ⟨⟩
    decide
  have within : before.length ≤ (before ++ quote :: early).length := by simp
  have told := cut.positionOf_patched unended within
  rw [stands.made] at shows
  refine ⟨visit, before.length, focus, ?_, ?_, ?_, ?_⟩
  · rw [cut.here]
    simp
  · rw [← shows]
    exact ⟨_, _, Node.layer_inText _ _⟩
  · refine ⟨quote, stands.quoted, ?_, ?_⟩
    · rw [cut.source]
      simp
    · rw [cut.insertPlaceholder]
      simp
  · rw [cut.insertPlaceholder, ← shows]
    exact ⟨_, Node.range_inText _ _, told, rfl⟩

/-! ## Keys -/

/-- What names a phrase is a string. -/
theorem Template.Trail.isAtString_of_isPhraseKey (key : trail.isPhraseKey = true) :
    trail.isAtString = true := by
  unfold isPhraseKey at key
  split at key
  · simp only [Bool.and_eq_true] at key
    exact key.1.1
  · simp only [Bool.and_eq_true] at key
    exact key.1.1
  · cases key

namespace Completion

/-- A key begins behind the quote that opens its string, and the editor's position of that place means the
place. -/
theorem typedKeyAt?_of_opensAt (placeholder : String) (focus : trail.focus? = some visit)
    (opens : OpensAt document patched visit.node begun) (phrase : trail.isPhraseKey = true) :
    ∃ key, typedKeyAt? placeholder document trail = .ok (some key) ∧
      document.offsetAt key.start = begun + 1 := by
  obtain ⟨value, spelling, layer⟩ := opens.string
  obtain ⟨quote, single, here, -⟩ := opens.quoted
  obtain ⟨range, placed, start, -⟩ := opens.placed
  have inside : ¬ (quote = '\r' ∨ quote = '\n') := by rcases single with rfl | rfl <;> decide
  obtain ⟨told, back⟩ := Document.wirePosition_behind here inside
  have value? : Template.stringValue? visit.layer = some value := by
    rw [show visit.layer = visit.node.layer from rfl, layer]
    rfl
  refine ⟨⟨Template.withoutPlaceholder placeholder value, _⟩, ?_, back⟩
  unfold typedKeyAt?
  rw [focus]
  simp only [value?, placed, phrase, if_true, behindQuote, start, told]
  rfl

/-- Every candidate for a key is put where the key begins, and nothing is removed there. -/
theorem edit_of_mem_keyCandidates {catalogue : Phrase.Catalogue} {key : TypedKey} {candidate : Candidate}
    (member : candidate ∈ keyCandidates catalogue key) :
    candidate.edit = some ⟨⟨key.start, key.start⟩, candidate.label⟩ := by
  obtain ⟨phrase, -, rfl⟩ := List.mem_map.mp member
  rfl

end Completion

/-! ## Edits -/

namespace Session

open Request

section
variable {session : Session} {target : Target} (reads : session.readers.templates = parse)
variable (usual : session.settings.placeholder = Settings.usual.placeholder)
variable (template : target.language = .handlebars)
include reads usual template

/-- A key is found in a template only where a phrase is named. -/
private theorem exists_phrase_of_typedKey? {key : Completion.TypedKey}
    (typed : (outcome (typedKey? target p) session).1 = .ok (some key)) :
    ∃ trail, focusAt parse Settings.usual.placeholder target.document p = .ok (some trail) ∧
      trail.isPhraseKey = true := by
  rw [outcome_typedKey?, if_pos template, outcome_focus?, reads, usual] at typed
  cases gives : focusAt parse Settings.usual.placeholder target.document p with
  | error error =>
    rw [gives] at typed
    cases typed
  | ok focus =>
    rw [gives] at typed
    cases focus with
    | none => cases typed
    | some trail =>
      refine ⟨trail, rfl, ?_⟩
      simp only at typed
      split at typed
      · rename_i told
        cases typed
        exact Completion.isPhraseKey_of_typedKeyAt? told
      · cases typed

/-- Where a phrase is named in a template, a key is found. It begins behind the quote that opens the string
under the cursor. -/
private theorem typedKey?_of_phrase
    (gives : focusAt parse Settings.usual.placeholder target.document p = .ok (some trail))
    (phrase : trail.isPhraseKey = true) :
    ∃ key visit begun, (outcome (typedKey? target p) session).1 = .ok (some key) ∧
      trail.focus? = some visit ∧ begun < target.document.offsetAt p ∧
      OpensAt target.document (insertPlaceholder target.document.chars (target.document.offsetAt p)
        Settings.usual.placeholder.toList) visit.node begun ∧
      target.document.offsetAt key.start = begun + 1 := by
  obtain ⟨visit, begun, focus, before, opens⟩ :=
    exists_opensAt gives (Trail.isAtString_of_isPhraseKey phrase)
  obtain ⟨key, typed, start⟩ :=
    Completion.typedKeyAt?_of_opensAt Settings.usual.placeholder focus opens phrase
  refine ⟨key, visit, begun, ?_, focus, before, opens, start⟩
  rw [outcome_typedKey?, if_pos template, outcome_focus?, reads, usual, gives]
  simp only [typed]

/-- What names a phrase under the cursor of a template is found to be a key, and all that is offered for it
is put where the key begins: right behind the quote that opens the string under the cursor. The text without
the placeholder has that quote in the same place. -/
theorem edits_of_completePhrase {uri : String}
    (targeted : (outcome (target? uri) session).1 = .ok (some target)) (p : Position) :
    let document := target.document
    let patched := insertPlaceholder document.chars (document.offsetAt p)
      Settings.usual.placeholder.toList
    (∀ trail, focusAt parse Settings.usual.placeholder document p = .ok (some trail) →
      trail.isPhraseKey = true → ∃ key, (outcome (typedKey? target p) session).1 = .ok (some key)) ∧
    ∀ candidates after, outcome (completePhrase uri p) session = (.ok candidates, after) →
      ∀ candidate ∈ candidates, ∃ edit trail visit begun, candidate.edit = some edit ∧
        edit.range.start = edit.range.stop ∧
        focusAt parse Settings.usual.placeholder document p = .ok (some trail) ∧
        trail.focus? = some visit ∧ OpensAt document patched visit.node begun ∧
        document.offsetAt edit.range.start = begun + 1 ∧ begun + 1 ≤ document.offsetAt p := by
  intro document patched
  constructor
  · intro trail gives phrase
    obtain ⟨key, -, -, typed, -⟩ := typedKey?_of_phrase reads usual template gives phrase
    exact ⟨key, typed⟩
  · intro candidates after answered candidate member
    rcases keyCandidates_of_completePhrase answered with
      rfl | ⟨other, key, catalogue, again, typed, -, rfl⟩
    · cases member
    cases targeted.symm.trans again
    obtain ⟨trail, gives, phrase⟩ := exists_phrase_of_typedKey? reads usual template typed
    obtain ⟨found, visit, begun, same, focus, before, opens, start⟩ :=
      typedKey?_of_phrase reads usual template gives phrase
    cases typed.symm.trans same
    exact ⟨_, trail, visit, begun, Completion.edit_of_mem_keyCandidates member, rfl, gives, focus,
      opens, start, before⟩

end

/-- Columns of an editor and of a tree differ behind a character that takes two units. -/
theorem edits_of_completePhrase_behind_wide_character :
    let known := (Session.start .usual .usual (.cached greeting.source)).afterAll [.call (.addProject "/p")]
    let document : Document := ⟨"file:///p/x.hbs", "a\r😀\x7b\x7bt \"h\"\x7d\x7d".toList, 0⟩
    let opened : Session := { known with documents := known.documents.insert document }
    opened.readers.templates = parse ∧ opened.settings.placeholder = Settings.usual.placeholder ∧
      ∃ target candidates after, (outcome (target? "file:///p/x.hbs") opened).1 = .ok (some target) ∧
        target.language = .handlebars ∧ target.document = document ∧
        outcome (completePhrase "file:///p/x.hbs" ⟨1, 8⟩) opened = (.ok candidates, after) ∧
        candidates.map Candidate.label = ["hello"] ∧
        ∀ candidate ∈ candidates, ∃ edit, candidate.edit = some edit ∧
          document.offsetAt edit.range.start = 8 := by
  intro known document opened
  have opens : (outcome (target? "file:///p/x.hbs") opened).1.toOption.bind (fun target =>
      target.map fun target => (target.language, target.document)) = some (.handlebars, document) := by
    decide +kernel
  -- The descent to the focus is by well-founded recursion. As a fold it computes.
  have told : (outcome (completePhrase "file:///p/x.hbs" ⟨1, 8⟩) opened).1.toOption.map
      (List.map Candidate.label) = some ["hello"] := by
    simp only [completePhrase, typedKey?, focus?, Template.focusAt, Template.Node.trailTo?_eq_fold]
    decide +kernel
  have single : ∀ begun < 9, document.chars[begun]? = some '\'' ∨ document.chars[begun]? = some '"' →
      begun = 7 := by
    decide +kernel
  have cursor : document.offsetAt ⟨1, 8⟩ = 9 := by decide +kernel
  simp only [Option.bind_eq_some_iff, Option.map_eq_some_iff, Prod.mk.injEq] at opens
  obtain ⟨_, targeted, target, rfl, template, same⟩ := opens
  have targeted : (outcome (target? "file:///p/x.hbs") opened).1 = .ok (some target) := by
    cases given : (outcome (target? "file:///p/x.hbs") opened).1 <;> rw [given] at targeted <;>
      cases targeted
    rfl
  have reads : opened.readers.templates = parse := rfl
  have usual : opened.settings.placeholder = Settings.usual.placeholder := rfl
  obtain ⟨-, edits⟩ := edits_of_completePhrase reads usual template targeted ⟨1, 8⟩
  rcases ended : outcome (completePhrase "file:///p/x.hbs" ⟨1, 8⟩) opened with
    ⟨fault | candidates, after⟩
  · rw [ended] at told
    cases told
  · rw [ended] at told
    refine ⟨reads, usual, target, candidates, after, targeted, template, same, rfl,
      Option.some.inj told, ?_⟩
    intro candidate member
    obtain ⟨edit, -, visit, begun, edited, -, -, -, stands, start, before⟩ :=
      edits candidates after ended candidate member
    obtain ⟨quote, one, here, -⟩ := stands.quoted
    rw [same] at here start before
    rw [cursor] at before
    refine ⟨edit, edited, ?_⟩
    have begins : begun = 7 := single begun before (by rcases one with rfl | rfl <;> simp [here])
    rw [start, begins]

end Session

end EmberAssist
