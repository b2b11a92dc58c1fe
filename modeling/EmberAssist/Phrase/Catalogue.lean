import EmberAssist.Document.Language
import EmberAssist.Files.Access
import EmberAssist.Phrase.Flatten

/-! The phrases of a project, collected from the files of all locales. Templates and scripts name a phrase
by its key, and every locale has a text of its own for it. -/
namespace EmberAssist.Phrase

open Data (DocumentFault Scalar Value ValueFault)

/-- The text of a phrase in a locale (`TranslationEntry`). -/
structure Entry where
  locale : String
  text : String
deriving DecidableEq, Repr, Inhabited

/-- The phrases by their keys, in the order in which the keys came first. -/
abbrev Catalogue := List (String × List Entry)

namespace Catalogue

/-- Adds a text behind those with the same key. -/
def add (key : String) (entry : Entry) : Catalogue → Catalogue
  | [] => [(key, [entry])]
  | (other, entries) :: rest =>
    if other = key then (other, entries ++ [entry]) :: rest else (other, entries) :: add key entry rest

/-- The catalogue of texts that come one after another with their keys. -/
def ofList (phrases : List (String × Entry)) : Catalogue :=
  phrases.foldl (fun catalogue (key, entry) => catalogue.add key entry) []

end Catalogue

/-- How documents with phrases are read. -/
structure Reader where
  /-- Reads a JSON document. -/
  json : List Char → Except DocumentFault Value
  /-- Reads a YAML document. -/
  yaml : List Char → Except DocumentFault Value
  /-- The fault that ends the way through a mapping, if its depth does and not something in it that comes
  before. -/
  tooDeep? : List (Scalar × Value) → Option ValueFault

namespace Reader

/-- Reads a document in the format that a suffix tells (`_load_document`). -/
def decode (reader : Reader) (suffix source : String) : Except DocumentFault Value :=
  if suffix = ".json" then reader.json source.toList else reader.yaml source.toList

/-- The entries of the mapping that a source holds, if it is not malformed and holds one. What else stops
the reading is a fault. -/
def entriesOf? (reader : Reader) (suffix source : String) :
    Except ValueFault (Option (List (Scalar × Value))) :=
  match reader.decode suffix source with
  | .ok (.map entries) => .ok (some entries)
  | .ok _ => .ok none
  | .error .malformed => .ok none
  | .error (.value fault) => .error fault

/-- The keys and texts of the phrases in a mapping, unless it is too deep. -/
def flatten (reader : Reader) (entries : List (Scalar × Value)) :
    Except ValueFault (List (List Char × List Char)) :=
  match reader.tooDeep? entries with
  | some fault => .error fault
  | none => Phrase.flatten [] entries

end Reader

/-- The phrases in a source, as the texts of a locale. -/
def ofSource (reader : Reader) (locale suffix source : String) :
    Except ValueFault (List (String × Entry)) := do
  match ← reader.entriesOf? suffix source with
  | none => return []
  | some entries =>
    let phrases ← reader.flatten entries
    return phrases.map fun (key, text) => (String.ofList key, ⟨locale, String.ofList text⟩)

/-- Reads the phrases in a file below a directory. The file's name without its suffix is the
locale. A file with another suffix is not read. -/
def readFile (reader : Reader) (directory : FilePath) (file : String) :
    ExceptT ValueFault FileReader (List (String × Entry)) := do
  let path := FilePath.ofString file
  if phraseSuffixes.contains path.lowerSuffix then
    match ← readText (directory.join path) with
    | some source => ofSource reader (String.ofList path.stem) path.lowerSuffix source
    | none => return []
  else return []

/-- Reads the phrases of the project at a root from the files below a directory (`load_translations`).
-/
def readCatalogue (reader : Reader) (root : FilePath) (directory : String) :
    ExceptT ValueFault FileReader Catalogue := do
  let base := root / directory
  let files ← listFiles base
  let phrases ← files.mapM (readFile reader base)
  return .ofList phrases.flatten

end EmberAssist.Phrase
