import EmberAssist.Data.Fault
import EmberAssist.Yaml.Cursor

/-! The tokens of a YAML text. Indentation is told by tokens of its own. -/
namespace EmberAssist.Yaml

/-- A tag as it is written: a handle that stands for the beginning of a name, and the rest of it. -/
structure WrittenTag where
  handle : Option (List Char)
  rest : List Char
deriving DecidableEq, Repr

/-- A token. -/
inductive Token where
  | version (major : Nat)
  | tagHandle (handle : List Char) (meaning : List Char)
  | otherDirective
  | documentStart
  | documentEnd
  | blockSequence
  | blockMapping
  | blockEnd
  | flowSequence
  | flowSequenceEnd
  | flowMapping
  | flowMappingEnd
  | blockEntry
  | flowEntry
  | key
  | value
  | alias (name : List Char)
  | anchor (name : List Char)
  | tag (written : WrittenTag)
  | scalar (text : List Char) (plain : Bool)
deriving DecidableEq, Repr

/-- A result, or what is wrong with the document. -/
abbrev Reading := Except Data.DocumentFault

/-- The text cannot be read on. -/
def malformed {α : Type} : Reading α := .error .malformed

end EmberAssist.Yaml
