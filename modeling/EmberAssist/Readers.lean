import EmberAssist.Phrase.Catalogue
import EmberAssist.Script.Lookup
import EmberAssist.Template.Focus

/-! What a session leaves to readers that are given to it. Whatever they make of a text, a session treats it
alike. -/
namespace EmberAssist

/-- The readers of templates, scripts and documents with phrases. -/
structure Readers where
  templates : Template.Reader
  scripts : Script.Reader
  phrases : Phrase.Reader

end EmberAssist
