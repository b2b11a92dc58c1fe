import EmberAssist.Data.Json
import EmberAssist.Readers
import EmberAssist.Script.Parser
import EmberAssist.Yaml.Construction

/-! The readers that the program gives to a session. -/
namespace EmberAssist

/-- The usual reader of documents with phrases. No mapping is too deep for it. -/
def Phrase.Reader.usual : Phrase.Reader := ⟨Data.Json.read, Yaml.read, fun _ => none⟩

/-- The usual readers. -/
def Readers.usual : Readers := ⟨Template.parse, .usual, .usual⟩

end EmberAssist
