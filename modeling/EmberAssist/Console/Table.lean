import EmberAssist.Console.Line
import EmberAssist.Console.Markup

/-! Tables for the terminal. Every column is as wide as its widest cell, unless the table would be
wider than the terminal; then the widest columns are made narrower and their texts are folded. -/
namespace EmberAssist.Console

/-! ## Widths -/

/-- A quotient rounded to the nearest whole number, a half to the even one. -/
def roundDiv (num den : Nat) : Nat :=
  let floor := num / den
  let rest := num % den
  if 2 * rest < den then floor
  else if den < 2 * rest then floor + 1
  else if floor % 2 = 0 then floor else floor + 1

/-- Takes an excess away from the widths that are chosen, in equal parts and at most so much from each
of them. `left` counts the chosen ones that are still to come. -/
def reduce (most : Nat) : Nat → Nat → List (Nat × Bool) → List Nat
  | _, _, [] => []
  | excess, left, (width, chosen) :: rest =>
    if chosen && 0 < left then
      let taken := min most (roundDiv excess left)
      (width - taken) :: reduce most (excess - taken) (left - 1) rest
    else width :: reduce most excess left rest

/-- Makes the widest columns narrower, down to the next narrower ones, until the widths fit or all are
the same. -/
def collapse (limit : Nat) : Nat → List Nat → List Nat
  | 0, widths => widths
  | bound + 1, widths =>
    let excess := total widths - limit
    let widest := widths.foldl max 0
    let second := (widths.filter (· != widest)).foldl max 0
    if excess = 0 || widest = second then widths
    else
      let chosen := widths.map fun width => (width, width == widest)
      let count := (widths.filter (· == widest)).length
      collapse limit bound (reduce (min excess (widest - second)) excess count chosen)

/-- The widths of columns that have to share the cells of a line. -/
def fitted (limit : Nat) (widths : List Nat) : List Nat :=
  collapse limit (total widths + 1) widths

/-! ## Cells -/

/-- The lines of a cell in a column of a width. Words that do not fit are cut off. -/
def cellLines (width : Nat) (text : List Char) : List (List Char) :=
  (foldedLines (fun word => [word]) width text).map (truncated width)

/-- A line filled up with spaces. -/
def padded (width : Nat) (line : List Char) : List Char :=
  line ++ List.replicate (width - cellLength line) ' '

/-! ## Rows -/

/-- The marks of a row of a table: at its left, between its columns and at its right, with the character
that fills the columns. -/
structure RowMarks where
  left : Char
  between : Char
  right : Char
  fill : Char

/-- A row of a table that has a line of text in each column. -/
def rowLine (marks : RowMarks) (widths : List Nat) (texts : List (List Char)) : List Char :=
  let columns := (widths.zip texts).map fun (width, text) =>
    marks.fill :: padded width text ++ [marks.fill]
  marks.left :: Text.join [marks.between] columns ++ [marks.right, '\n']

/-- A row of a table without text. -/
def ruleLine (marks : RowMarks) (widths : List Nat) : List Char :=
  let columns := widths.map fun width => List.replicate (width + 2) marks.fill
  marks.left :: Text.join [marks.between] columns ++ [marks.right, '\n']

/-- A row of a table: as many lines as the highest of its cells has. -/
def rowLines (marks : RowMarks) (widths : List Nat) (cells : List (List Char)) : List Char :=
  let lines := (widths.zip cells).map fun (width, cell) => cellLines width cell
  let height := (lines.map List.length).foldl max 1
  (List.range height).flatMap fun line =>
    rowLine marks widths (lines.map fun cell => cell[line]?.getD [])

/-- A character that can end a line. -/
def canEndLine (c : Char) : Bool :=
  c == '\n' || (0x1C ≤ c.toNat && c.toNat ≤ 0x1E) || c.toNat == 0x85 || c.toNat == 0x2028 ||
    c.toNat == 0x2029

/-- How many cells the longest line of a text takes, if every character that can end a line does. -/
def textWidth (text : List Char) : Nat :=
  let lines := Text.splitOn '\n' (text.map fun c => if canEndLine c then '\n' else c)
  (lines.map cellLength).foldl max 0

/-- The width that a column asks for: that of its longest line, but one cell at least. -/
def columnWidth (column : Nat) (rows : List (List (List Char))) : Nat :=
  max 1 ((rows.map fun row => textWidth (row[column]?.getD [])).foldl max 0)

/-- A table of texts with a row of headers. -/
def table (headers : List (List Char)) (rows : List (List (List Char))) : List Char :=
  let limit := terminalWidth - (headers.length + 1)
  let asked := (List.range headers.length).map fun column =>
    min limit (columnWidth column (headers :: rows) + 2)
  let widths := (if total asked ≤ limit then asked else fitted limit asked).map (· - 2)
  ruleLine ⟨'┏', '┳', '┓', '━'⟩ widths ++ rowLines ⟨'┃', '┃', '┃', ' '⟩ widths headers ++
    ruleLine ⟨'┡', '╇', '┩', '━'⟩ widths ++ rows.flatMap (rowLines ⟨'│', '│', '│', ' '⟩ widths) ++
    ruleLine ⟨'└', '┴', '┘', '─'⟩ widths

/-- A table of texts with markup, unless one of them turns off a style that is not on. -/
def table? (headers : List String) (rows : List (List (List Char))) : Option (List Char) := do
  return table (headers.map String.toList) (← rows.mapM fun row => row.mapM shown?)

end EmberAssist.Console
