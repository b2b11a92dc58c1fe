import EmberAssist.Text.Lines
import EmberAssist.Text.Slice
import EmberAssist.Document.Basic

/-! The text that a range of positions covers. -/
namespace EmberAssist.Template

/-- The lines of a text, each with the characters that end it, given the beginning of the first one
in reverse. Nothing is left of the text behind its last line end. -/
def linesAfter (line : List Char) : List Char → List (List Char)
  | [] => if line.isEmpty then [] else [line.reverse]
  | '\r' :: '\n' :: rest => ('\n' :: '\r' :: line).reverse :: linesAfter [] rest
  | c :: rest =>
    if c = '\r' ∨ c = '\n' then (c :: line).reverse :: linesAfter [] rest
    else linesAfter (c :: line) rest

/-- The lines of a text with the characters that end them, and an empty one at the end. -/
def sourceLines (content : List Char) : List (List Char) := linesAfter [] content ++ [[]]

/-- The part of a line that a range covers. -/
def coveredPart (range : Range) (number : Int) (line : List Char) : List Char :=
  if number = range.start.line ∧ number = range.stop.line then
    Text.slice line range.start.column range.stop.column
  else if number = range.start.line then Text.dropTo line range.start.column
  else if number = range.stop.line then Text.takeTo line range.stop.column
  else line

/-- The text that a range covers, or nothing if it begins behind the last line. A line before the
first is counted from the end. -/
def sourceOf? (content : List Char) (range : Range) :
    Except NoSuchLine (Option (List Char)) :=
  let lines := sourceLines content
  if lines.length ≤ range.start.line then .ok none
  else
    let last := min range.stop.line (lines.length - 1)
    if range.start.line < -lines.length ∧ range.start.line ≤ last then .error ⟨range.start.line⟩
    else
      let count := (last + 1 - range.start.line).toNat
      .ok (some ((List.range count).flatMap fun (index : Nat) =>
        let number := range.start.line + index
        coveredPart range number ((Text.item? lines number).getD [])))

/-- The text of a node, or nothing if it has no place in the text (`source_for_node`). -/
def sourceAt? (content : List Char) : Option Range → Except NoSuchLine (Option (List Char))
  | none => .ok none
  | some range => sourceOf? content range

end EmberAssist.Template
