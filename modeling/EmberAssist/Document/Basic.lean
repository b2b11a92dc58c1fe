import EmberAssist.Text.Lines
import EmberAssist.Text.Slice

/-! Texts as editors show them. An editor counts columns in units of sixteen bits; the template tree
counts characters. -/
namespace EmberAssist

/-- An open document (`TextDocument`). -/
structure Document where
  uri : String
  chars : List Char
  version : Int
deriving DecidableEq, Repr, Inhabited

/-- A line counted from the end of a text that has fewer lines. -/
structure NoSuchLine where
  line : Int
deriving DecidableEq, Repr

/-- The units of sixteen bits that a character takes. -/
def units16 (c : Char) : Nat := if c.toNat < 0x10000 then 1 else 2

/-- The units of sixteen bits that a text takes (`_utf16_length`). -/
def length16 (chars : List Char) : Nat := (chars.map units16).foldr (· + ·) 0

/-- How many characters begin before a column, counted in units of sixteen bits. -/
def charsBefore (column : Int) : List Char → Nat
  | [] => 0
  | c :: rest => if 0 < column then 1 + charsBefore (column - units16 c) rest else 0

namespace Document

/-- The offsets at which the lines of a document begin. -/
def starts (document : Document) : List Nat := Text.lineStarts document.chars

/-- The end of a line between two offsets without the characters that end it. -/
def lineEnd (chars : List Char) (start stop : Nat) : Nat :=
  start + (((chars.take stop).drop start).reverse.dropWhile fun c => c == '\r' || c == '\n').length

/-- Where a line begins, and where it ends without the characters that end it (`_line_bounds`). A line
before the first is counted from the end of the text. -/
def lineBounds? (document : Document) (line : Int) : Option (Nat × Nat) := do
  let starts := document.starts
  let start ← Text.item? starts line
  let stop :=
    if line + 1 < starts.length then (Text.item? starts (line + 1)).getD 0
    else document.chars.length
  if start < stop then return (start, lineEnd document.chars start stop) else return (start, stop)

/-- The offset of an editor's position (`offset_at`). A position before the text means its line's or
its own beginning, one behind a line the line's end, and one behind the text the text's end. -/
def offsetAt (document : Document) (p : Position) : Nat :=
  if document.starts.length ≤ p.line then document.chars.length
  else
    match document.lineBounds? (max p.line 0) with
    | none => document.chars.length
    | some (start, stop) =>
      start + charsBefore p.column ((document.chars.take stop).drop start)

/-- The editor's position of an offset; offsets outside the text mean its ends (`position_at`). -/
def positionAt (document : Document) (offset : Int) : Position :=
  let offset := min (max offset 0).toNat document.chars.length
  let line := Text.lineOf document.starts offset
  let start := Text.lineStart document.starts line
  ⟨line, length16 ((document.chars.take offset).drop start)⟩

/-- The position in characters of an editor's position (`codepoint_position`). -/
def codepointPosition (document : Document) (p : Position) : Position :=
  Text.positionOf document.starts (document.offsetAt p)

/-- The editor's position of a position in characters (`wire_position`). -/
def wirePosition (document : Document) (p : Position) : Except NoSuchLine Position :=
  if document.starts.length ≤ p.line then .ok (document.positionAt document.chars.length)
  else
    match document.lineBounds? p.line with
    | none => .error ⟨p.line⟩
    | some (start, stop) => .ok (document.positionAt (min (start + p.column) stop))

end Document

end EmberAssist
