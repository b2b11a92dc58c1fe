import EmberAssist.AppModule
import EmberAssist.Completion.Candidate
import EmberAssist.Console.Table
import EmberAssist.Data.JsonText

/-! How answers are shown in the terminal. A text that cannot be shown, because a tag in it turns off a
style that is not on, makes the whole answer one. -/
namespace EmberAssist.CommandLine

open Data (Scalar Value)

/-- A line of text in a style. However long it is, it stays one line. -/
def styledLine? (style : String) (text : String) : Option (List Char) :=
  (Console.shown? (Console.styled style text.toList)).map Console.unfolded

/-- Text with markup, folded to the width of the terminal. -/
def folded? (markup : List Char) : Option (List Char) :=
  (Console.shown? markup).map Console.folded

/-- The line behind a table that tells how many there are. -/
def countLine (count : Nat) (what : String) : List Char :=
  ("(" ++ toString count ++ " " ++ what ++ ")\n").toList

/-- Candidates in a table. -/
def candidateTable? (candidates : List Candidate) : Option (List Char) := do
  let table ← Console.table? ["label", "kind", "detail"] (candidates.map fun candidate =>
    [candidate.label.toList, candidate.kind.name.toList, candidate.detail.toList])
  return table ++ countLine candidates.length "candidates"

/-- Modules in a table. -/
def moduleTable? (modules : List AppModule) : Option (List Char) := do
  let table ← Console.table? ["name", "type"] (modules.map fun found =>
    [found.name, found.kind.name.toList])
  return table ++ countLine modules.length "modules"

/-- A value by a name. -/
def named (name : String) (value : Value) : Scalar × Value := (.text name.toList, value)

/-- A position as a value. -/
def positionValue (p : Position) : Value :=
  .map [named "line" (.scalar (.int p.line)), named "column" (.scalar (.int p.column))]

/-- A text as a value. -/
def textValue (text : String) : Value := .scalar (.text text.toList)

/-- A change of a text as a value. -/
def editValue (edit : TextEdit) : Value :=
  .map [named "range" (.map [named "start" (positionValue edit.range.start),
    named "end" (positionValue edit.range.stop)]), named "new_text" (textValue edit.newText)]

/-- A candidate as a value. -/
def candidateValue (candidate : Candidate) : Value :=
  .map [named "kind" (.scalar (.int candidate.kind.number)),
    named "label" (textValue candidate.label), named "detail" (textValue candidate.detail),
    named "text_edit" ((candidate.edit.map editValue).getD (.scalar .null))]

/-- Candidates as JSON. -/
def candidateJson (candidates : List Candidate) : List Char :=
  Value.jsonText 0 (.list (candidates.map candidateValue)) ++ ['\n']

end EmberAssist.CommandLine
