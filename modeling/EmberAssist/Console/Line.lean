import EmberAssist.Console.Cell
import EmberAssist.Text.Blank
import EmberAssist.Text.Search

/-! The lines of a text in the terminal. A line that is too long is folded between two words. -/
namespace EmberAssist.Console

/-- How many cells a line of the terminal has. -/
def terminalWidth : Nat := 200

/-- How many cells lie between two tab stops. -/
def tabSize : Nat := 8

/-- A line with spaces up to the next tab stop in the place of each tab. `used` counts the cells before
it. -/
def expandTabs (used : Nat) : List Char → List Char
  | [] => []
  | '\t' :: rest =>
    let spaces := tabSize - used % tabSize
    List.replicate spaces ' ' ++ expandTabs (used + spaces) rest
  | c :: rest => c :: expandTabs (used + cellWidth c) rest

/-- The words of a line with the blanks behind them, the first also with those before it. -/
def wordsWithBlanks : Nat → List Char → List (List Char)
  | 0, _ => []
  | bound + 1, chars =>
    let (before, rest) := chars.span Text.isBlank
    let (word, rest) := rest.span (!Text.isBlank ·)
    let (after, rest) := rest.span Text.isBlank
    if word.isEmpty then [] else (before ++ word ++ after) :: wordsWithBlanks bound rest

/-- Cuts a word into pieces that fit a line. `room` counts the cells that are left for the first of
them. -/
def chopped (width : Nat) (room : Nat) : List Char → List (List Char)
  | [] => [[]]
  | c :: rest =>
    if cellWidth c ≤ room then
      match chopped width (room - cellWidth c) rest with
      | piece :: pieces => (c :: piece) :: pieces
      | [] => [[c]]
    else
      match chopped width (width - cellWidth c) rest with
      | piece :: pieces => [] :: (c :: piece) :: pieces
      | [] => [[], [c]]

/-- Puts words into lines of a width. `line` is the line so far, and `used` its cells. A word that fits
no line begins one, in the pieces that `cut` makes of it. -/
def foldWords (cut : List Char → List (List Char)) (width : Nat) (line : List Char) (used : Nat) :
    List (List Char) → List (List Char)
  | [] => [line]
  | word :: words =>
    let length := cellLength (Text.trimEnd Text.isBlank word)
    if used + length ≤ width then
      foldWords cut width (line ++ word) (used + cellLength word) words
    else
      let before := if line.isEmpty then [] else [line]
      let pieces := if width < length then cut word else [word]
      let last := pieces.getLast?.getD []
      before ++ pieces.dropLast ++ foldWords cut width last (cellLength last) words

/-- The line without blanks at its end that do not fit. -/
def dropExcessBlanks (width : Nat) (line : List Char) : List Char :=
  let blanks := line.length - (Text.trimEnd Text.isBlank line).length
  line.take (line.length - min blanks (line.length - width))

/-- The lines of a text in a width, where `cut` makes pieces of a word that fits no line. -/
def foldedLines (cut : List Char → List (List Char)) (width : Nat) (text : List Char) :
    List (List Char) :=
  (Text.splitOn '\n' text).flatMap fun line =>
    let line := expandTabs 0 line
    let words := wordsWithBlanks (line.length + 1) line
    let folded := if words.isEmpty then [line] else foldWords cut width [] 0 words
    folded.map (dropExcessBlanks width)

/-- The first cells of a text. Half of a wide character is a space. -/
def firstCells : Nat → List Char → List Char
  | _, [] => []
  | 0, _ => []
  | cells, c :: rest =>
    if cellWidth c ≤ cells then c :: firstCells (cells - cellWidth c) rest else [' ']

/-- A line cut to a width, with dots in the place of what is missing. -/
def truncated (width : Nat) (line : List Char) : List Char :=
  if width < cellLength line then firstCells (width - 1) line ++ ['…'] else line

/-- Text whose long lines are left to the terminal. -/
def unfolded (text : List Char) : List Char :=
  (Text.splitOn '\n' text).flatMap fun line => expandTabs 0 line ++ ['\n']

/-- Text whose long lines are folded, in the middle of a word if need be. -/
def folded (text : List Char) : List Char :=
  (foldedLines (chopped terminalWidth terminalWidth) terminalWidth text).flatMap fun line =>
    firstCells terminalWidth line ++ ['\n']

end EmberAssist.Console
