import EmberAssist.Document.Basic
import EmberAssist.Template.Context
import EmberAssist.Template.Parser
import EmberAssist.Text.Search

/-! The node under the cursor of a half-typed template. A placeholder typed at the cursor makes the
text readable; the nodes before the cursor keep their places. -/
namespace EmberAssist.Template

/-- A reader of templates. -/
abbrev Reader := String → Except SyntaxError (Node Range)

/-- A text with a placeholder typed at an offset, a negative offset counting from the end
(`insert_placeholder`). -/
def insertPlaceholder (text : List Char) (offset : Int) (placeholder : List Char) : List Char :=
  Text.takeTo text offset ++ placeholder ++ Text.dropTo text offset

/-- The trail to the node under the cursor, after typing a placeholder there (`template_focus_path`). -/
def focusAt (read : Reader) (placeholder : String) (document : Document) (p : Position) :
    Except SyntaxError (Option (Trail (Node Range))) := do
  let patched :=
    insertPlaceholder document.chars (document.offsetAt p) placeholder.toList
  let tree ← read (String.ofList patched)
  return tree.trailTo? (document.codepointPosition p)

/-- A text without the placeholder. -/
def withoutPlaceholder (placeholder text : String) : String :=
  String.ofList (Text.replace placeholder.toList [] text.toList)

/-- What a path or a string is written as. -/
def spelling? {α : Type} : Layer α → Option String
  | .path spelling .. => some spelling
  | .stringLiteral _ spelling => some spelling
  | _ => none

/-- What has been typed of the path or the string in focus (`text_prefix`). -/
def typedText {α : Type} [NodeLike α] (placeholder : String) (trail : Trail α) : String :=
  match trail.focus?.bind fun visit => spelling? visit.layer with
  | some spelling => withoutPlaceholder placeholder spelling
  | none => ""

end EmberAssist.Template
