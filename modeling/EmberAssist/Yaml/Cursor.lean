/-! Reading a YAML text from left to right. Columns decide what belongs together, so the place of
reading knows its line and column. -/
namespace EmberAssist.Yaml

/-- A place in a text: what is left of it, and the offset, line and column at which that begins. -/
structure Cursor where
  rest : List Char
  offset : Nat
  line : Nat
  column : Nat
deriving Repr, Inhabited

/-- A character that ends a line. -/
def isBreak (c : Char) : Bool :=
  c == '\n' || c == '\r' || c == Char.ofNat 0x85 || c == Char.ofNat 0x2028 || c == Char.ofNat 0x2029

/-- A line ends here, or the text does. -/
def endsLine : Option Char → Bool
  | none => true
  | some c => isBreak c

/-- A space, the end of a line, or the end of the text. -/
def isGap : Option Char → Bool
  | none => true
  | some c => c == ' ' || isBreak c

/-- A blank, the end of a line, or the end of the text. -/
def isWideGap : Option Char → Bool
  | none => true
  | some c => c == ' ' || c == '\t' || isBreak c

/-- The mark of byte order, which takes no column. -/
def byteOrderMark : Char := Char.ofNat 0xFEFF

namespace Cursor

/-- The beginning of a text. -/
def ofText (chars : List Char) : Cursor := ⟨chars, 0, 0, 0⟩

/-- The next character. -/
def peek (c : Cursor) : Option Char := c.rest.head?

/-- The character at a distance. -/
def peekAt (c : Cursor) (distance : Nat) : Option Char := c.rest[distance]?

/-- The place behind the next character. A line feed behind a carriage return ends the same line. -/
def next (c : Cursor) : Cursor :=
  match c.rest with
  | [] => c
  | ch :: rest =>
    if isBreak ch && !(ch == '\r' && rest.head? == some '\n') then ⟨rest, c.offset + 1, c.line + 1, 0⟩
    else if ch == byteOrderMark then { c with rest, offset := c.offset + 1 }
    else { c with rest, offset := c.offset + 1, column := c.column + 1 }

/-- The place behind some characters. -/
def skip : Nat → Cursor → Cursor
  | 0, c => c
  | n + 1, c => skip n c.next

/-- Skips the next characters of a class. -/
def skipWhile (p : Char → Bool) (c : Cursor) : Cursor := c.skip (c.rest.takeWhile p).length

/-- Reads the next characters of a class. -/
def takeWhile (p : Char → Bool) (c : Cursor) : List Char × Cursor :=
  (c.rest.takeWhile p, c.skipWhile p)

/-- Skips spaces. -/
def skipSpaces (c : Cursor) : Cursor := c.skipWhile (· == ' ')

/-- Reads the end of a line. The usual ends are all read as a line feed. -/
def lineBreak? (c : Cursor) : Option (Char × Cursor) :=
  match c.rest with
  | '\r' :: '\n' :: _ => some ('\n', c.skip 2)
  | ch :: _ =>
    if ch == '\n' || ch == '\r' || ch == Char.ofNat 0x85 then some ('\n', c.next)
    else if isBreak ch then some (ch, c.next)
    else none
  | [] => none

/-- Skips the end of a line, if the line ends here. -/
def skipBreak (c : Cursor) : Cursor := (c.lineBreak?.map (·.2)).getD c

/-- Skips a comment, if one begins here. -/
def skipComment (c : Cursor) : Cursor :=
  if c.peek == some '#' then c.skipWhile (!isBreak ·) else c

/-- Whether three marks and a gap come next, which separate documents at the beginning of a line. -/
def seesMarks (mark : Char) (c : Cursor) : Bool :=
  c.rest.take 3 == [mark, mark, mark] && isWideGap (c.peekAt 3)

/-- Whether a document ends or begins here, if this is the beginning of a line. -/
def seesSeparator (c : Cursor) : Bool := c.seesMarks '-' || c.seesMarks '.'

end Cursor

/-- A character that a document may hold. -/
def isAllowed (c : Char) : Bool :=
  let n := c.toNat
  n == 0x09 || n == 0x0A || n == 0x0D || (0x20 ≤ n && n ≤ 0x7E) || n == 0x85 ||
    (0xA0 ≤ n && n ≤ 0xD7FF) || (0xE000 ≤ n && n ≤ 0xFFFD) || 0x10000 ≤ n

end EmberAssist.Yaml
