import EmberAssist.Position

/-! Lines of a text. A line ends after a line feed, a carriage return, or the two of them together,
and the text behind the last of these is a line as well, even an empty one. -/
namespace EmberAssist.Text

/-- The offsets at which the lines after the first begin, in a text that begins at an offset. -/
def lineStartsFrom : Nat → List Char → List Nat
  | _, [] => []
  | offset, '\r' :: '\n' :: rest => (offset + 2) :: lineStartsFrom (offset + 2) rest
  | offset, c :: rest =>
    if c = '\r' ∨ c = '\n' then (offset + 1) :: lineStartsFrom (offset + 1) rest
    else lineStartsFrom (offset + 1) rest

/-- The offsets at which the lines of a text begin. There is always a first line. -/
def lineStarts (chars : List Char) : List Nat := 0 :: lineStartsFrom 0 chars

/-- The line that an offset is on: the last one that begins no later. -/
def lineOf (starts : List Nat) (offset : Nat) : Nat :=
  (starts.takeWhile (· ≤ offset)).length - 1

/-- The offset at which a line begins. -/
def lineStart (starts : List Nat) (line : Nat) : Nat := starts.getD line 0

/-- Line and column of an offset, the column counting characters. -/
def positionOf (starts : List Nat) (offset : Nat) : Position :=
  let line := lineOf starts offset
  ⟨line, (offset - lineStart starts line : Nat)⟩

/-- The range of positions that a span of offsets covers. -/
def rangeOf (starts : List Nat) (span : Span) : Range :=
  ⟨positionOf starts span.start, positionOf starts span.stop⟩

end EmberAssist.Text
