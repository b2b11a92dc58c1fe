import EmberAssist.Completion.Candidate
import EmberAssist.Script.Lookup
import EmberAssist.Template.Focus
import EmberAssist.Phrase.Catalogue

/-! The keys of phrases that are being typed, in templates and in scripts. -/
namespace EmberAssist.Completion

open Template (Trail focusAt insertPlaceholder withoutPlaceholder)

/-- A key that is being typed, and the place where it begins. -/
structure TypedKey where
  typed : String
  start : Position
deriving DecidableEq, Repr

/-- The beginning of the string that a node is, behind its opening quote. -/
def behindQuote (range : Range) : Position := ⟨range.start.line, range.start.column + 1⟩

/-- The key that the focus of a template is (`_template_key`). -/
def typedKeyAt? (placeholder : String) (document : Document) (trail : Trail (Template.Node Range)) :
    Except NoSuchLine (Option TypedKey) := do
  match trail.focus? with
  | some visit =>
    match Template.stringValue? visit.layer, visit.node.range with
    | some value, some range =>
      if trail.isPhraseKey then
        let start ← document.wirePosition (behindQuote range)
        return some ⟨withoutPlaceholder placeholder value, start⟩
      else return none
    | _, _ => return none
  | none => return none

/-- The key at the cursor of a script in a language (`_script_key`). -/
def scriptKey? (scripts : Script.Reader) (language : Language) (placeholder : String)
    (document : Document) (p : Position) : Option TypedKey :=
  let offset := document.offsetAt p
  let patched := insertPlaceholder document.chars offset placeholder.toList
  let cursor := Text.utf8Length (patched.take offset)
  (Script.phraseArgument? (scripts.around (scripts.tree language patched) cursor)).map fun found =>
    ⟨withoutPlaceholder placeholder (String.ofList found.value),
      document.positionAt (Text.charsWithin found.start patched)⟩

/-- The candidate for a key, which is completed where it begins. -/
def ofPhrase (start : Position) (key : String) (entries : List Phrase.Entry) : Candidate :=
  let first := entries.headD default
  ⟨.value, key, first.locale ++ " : " ++ first.text, some ⟨⟨start, start⟩, key⟩⟩

/-- The candidates for a key that is being typed: the keys that begin with what has been typed. -/
def keyCandidates (catalogue : Phrase.Catalogue) (key : TypedKey) : List Candidate :=
  (catalogue.filter fun (known, _) => Text.startsWith known.toList key.typed.toList).map
    fun (known, entries) => ofPhrase key.start known entries

end EmberAssist.Completion
