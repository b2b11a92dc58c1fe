import EmberAssist.Yaml.Property

/-! The texts of scalars: plain ones, quoted ones, and blocks of lines. Lines of a text that goes on are
folded: a single end of line counts as a space, and of several all but the first are kept. -/
namespace EmberAssist.Yaml

/-- What stands for the ends of lines between two parts of a text: the first one, and those of the empty
lines behind it. -/
def folded (first : Char) (others : List Char) : List Char :=
  if first != '\n' then first :: others
  else if others.isEmpty then [' ']
  else others

/-! ## Plain scalars -/

/-- Whether a plain scalar ends before a character. Inside brackets more characters end it. -/
def endsPlain (inFlow : Bool) (c : Cursor) : Bool :=
  match c.peek with
  | none => true
  | some ch =>
    isWideGap (some ch) ||
      (ch == ':' && (isWideGap (c.peekAt 1) ||
        (inFlow && (c.peekAt 1).any [',', '[', ']', '\x7b', '\x7d'].contains))) ||
      (inFlow && [',', '?', '[', ']', '\x7b', '\x7d'].contains ch)

/-- Reads the characters of a plain scalar up to the next blank. -/
def plainWord (inFlow : Bool) : Nat → Cursor → List Char × Cursor
  | 0, c => ([], c)
  | bound + 1, c =>
    match c.peek with
    | some ch =>
      if endsPlain inFlow c then ([], c)
      else
        let (word, c) := plainWord inFlow bound c.next
        (ch :: word, c)
    | none => ([], c)

/-- Reads empty lines and the spaces that begin a line. Gives the ends of the lines, and whether
documents are separated behind one of them. -/
def plainBreaks : Nat → Cursor → List Char × Bool × Cursor
  | 0, c => ([], false, c)
  | bound + 1, c =>
    if c.peek == some ' ' then plainBreaks bound c.next
    else
      match c.lineBreak? with
      | none => ([], false, c)
      | some (ch, c) =>
        if c.seesSeparator then ([ch], true, c)
        else
          let (others, separated, c) := plainBreaks bound c
          (ch :: others, separated, c)

/-- What stands between two words of a plain scalar. -/
structure PlainGap where
  /-- What the text has there, nothing if the scalar ends. -/
  chars : List Char
  /-- Whether a line ends there. -/
  endsLine : Bool
  behind : Cursor

/-- Reads what stands between two words of a plain scalar. -/
def plainGap (c : Cursor) : PlainGap :=
  let (spaces, c) := c.takeWhile (· == ' ')
  match c.lineBreak? with
  | some (first, c) =>
    if c.seesSeparator then ⟨[], true, c⟩
    else
      let (others, separated, c) := plainBreaks (c.rest.length + 1) c
      if separated then ⟨[], true, c⟩ else ⟨folded first others, true, c⟩
  | none => ⟨spaces, false, c⟩

/-- A plain scalar: its text, and whether a line has ended behind its last word. -/
structure PlainScalar where
  chars : List Char
  endsLine : Bool
  behind : Cursor

/-- Reads the words of a plain scalar from one on that must be indented at least so far. `gap` stands
before the word, and `lineEnded` tells whether a line has ended there. -/
def plainWords (inFlow : Bool) (indent : Nat) (gap : List Char) (lineEnded : Bool) :
    Nat → Cursor → PlainScalar
  | 0, c => ⟨[], lineEnded, c⟩
  | bound + 1, c =>
    if c.peek == some '#' then ⟨[], lineEnded, c⟩
    else
      match plainWord inFlow (c.rest.length + 1) c with
      | ([], c) => ⟨[], lineEnded, c⟩
      | (word, c) =>
        let between := plainGap c
        if between.chars.isEmpty || between.behind.peek == some '#' ||
            (!inFlow && between.behind.column < indent) then
          ⟨gap ++ word, between.endsLine, between.behind⟩
        else
          let others := plainWords inFlow indent between.chars between.endsLine bound between.behind
          ⟨gap ++ word ++ others.chars, others.endsLine, others.behind⟩

/-- Reads a plain scalar. -/
def readPlain (inFlow : Bool) (indent : Nat) (c : Cursor) : PlainScalar :=
  plainWords inFlow indent [] false (c.rest.length + 1) c

/-! ## Quoted scalars -/

/-- The character that an escape means by one letter. -/
def escapedLetter? : Char → Option Char
  | '0' => some '\x00'
  | 'a' => some '\x07'
  | 'b' => some '\x08'
  | 't' => some '\t'
  | '\t' => some '\t'
  | 'n' => some '\n'
  | 'v' => some '\x0b'
  | 'f' => some '\x0c'
  | 'r' => some '\r'
  | 'e' => some '\x1b'
  | ' ' => some ' '
  | '"' => some '"'
  | '\\' => some '\\'
  | '/' => some '/'
  | 'N' => some (Char.ofNat 0x85)
  | '_' => some (Char.ofNat 0xA0)
  | 'L' => some (Char.ofNat 0x2028)
  | 'P' => some (Char.ofNat 0x2029)
  | _ => none

/-- How many digits follow the letter of an escape by number. -/
def escapeDigits? : Char → Option Nat
  | 'x' => some 2
  | 'u' => some 4
  | 'U' => some 8
  | _ => none

/-- The character with a number; half a character becomes the replacement character. -/
def numberedChar (code : Nat) : Reading Char :=
  if 0x110000 ≤ code then .error (.value (.noCharacter code))
  else if 0xD800 ≤ code ∧ code < 0xE000 then .ok (Char.ofNat 0xFFFD)
  else .ok (Char.ofNat code)

/-- Reads the hexadecimal number of a character. -/
def readNumbered (digits : Nat) (c : Cursor) : Reading (Char × Cursor) := do
  let found := c.rest.take digits
  if found.length < digits || !found.all (·.toNat < 0x80) then malformed
  else
    match Data.digitsFrom? 16 0 found with
    | some code => return (← numberedChar code, c.skip digits)
    | none => malformed

/-- Reads the ends of empty lines inside quotes and the blanks that begin a line. Documents must not be
separated there. -/
def quotedBreaks : Nat → Cursor → Reading (List Char × Cursor)
  | 0, _ => malformed
  | bound + 1, c =>
    if c.seesSeparator then malformed
    else
      let c := c.skipWhile fun ch => ch == ' ' || ch == '\t'
      match c.lineBreak? with
      | none => .ok ([], c)
      | some (ch, c) => do
        let (others, c) ← quotedBreaks bound c
        return (ch :: others, c)

/-- Reads blanks inside quotes, and the ends of lines if there are any. -/
def quotedGap (c : Cursor) : Reading (List Char × Cursor) :=
  let (blanks, c) := c.takeWhile fun ch => ch == ' ' || ch == '\t'
  match c.peek, c.lineBreak? with
  | none, _ => malformed
  | some _, none => .ok (blanks, c)
  | some _, some (first, c) => do
    let (others, c) ← quotedBreaks (c.rest.length + 1) c
    return (folded first others, c)

/-- Reads a part of a text in double quotes: a character, an escape, or blanks. -/
def doubleQuotedPart (c : Cursor) : Reading (List Char × Cursor) :=
  match c.rest with
  | [] => malformed
  | ['\\'] => malformed
  | '\\' :: letter :: _ =>
    match escapedLetter? letter, escapeDigits? letter with
    | some ch, _ => .ok ([ch], c.skip 2)
    | none, some digits => do
      let (ch, c) ← readNumbered digits (c.skip 2)
      return ([ch], c)
    | none, none =>
      if isBreak letter then quotedBreaks (c.rest.length + 1) c.next.skipBreak else malformed
  | ch :: _ => if isWideGap (some ch) then quotedGap c else .ok ([ch], c.next)

/-- Reads a part of a text in single quotes: a character, a doubled quote, or blanks. -/
def singleQuotedPart (c : Cursor) : Reading (List Char × Cursor) :=
  match c.rest with
  | [] => malformed
  | '\'' :: '\'' :: _ => .ok (['\''], c.skip 2)
  | ch :: _ => if isWideGap (some ch) then quotedGap c else .ok ([ch], c.next)

/-- Whether a quoted text ends here. -/
def endsQuoted (quote : Char) (c : Cursor) : Bool :=
  c.peek == some quote && !(quote == '\'' && c.peekAt 1 == some quote)

/-- Reads the parts of a quoted text up to the closing quote. -/
def quotedParts (quote : Char) : Nat → Cursor → Reading (List Char × Cursor)
  | 0, _ => malformed
  | bound + 1, c =>
    if endsQuoted quote c then .ok ([], c.next)
    else do
      let (part, c) ← if quote == '"' then doubleQuotedPart c else singleQuotedPart c
      let (others, c) ← quotedParts quote bound c
      return (part ++ others, c)

/-- Reads a quoted text. -/
def readQuoted (quote : Char) (c : Cursor) : Reading (List Char × Cursor) :=
  quotedParts quote (c.rest.length + 1) c.next

/-! ## Blocks of lines -/

/-- What happens to the ends of lines behind the last line of a block. -/
inductive Chomping where
  | strip
  | clip
  | keep
deriving DecidableEq, Repr

/-- The marks behind the sign that begins a block. -/
structure BlockHeader where
  chomping : Chomping
  indent : Option Nat
deriving DecidableEq, Repr

/-- What a sign says about the last ends of lines. -/
def chompingOf? : Char → Option Chomping
  | '+' => some .keep
  | '-' => some .strip
  | _ => none

/-- Reads the mark of indentation: a digit, but not zero. -/
def readIndentMark (c : Cursor) : Reading (Option Nat × Cursor) :=
  match c.peek with
  | some ch =>
    if !ch.isDigit then .ok (none, c)
    else if ch == '0' then malformed
    else .ok (some (ch.toNat - 48), c.next)
  | none => .ok (none, c)

/-- Reads the marks behind the sign that begins a block, which may stand in either order. -/
def readBlockHeader (c : Cursor) : Reading (BlockHeader × Cursor) := do
  let (header, c) ←
    match c.peek.bind chompingOf? with
    | some chomping => do
      let (indent, c) ← readIndentMark c.next
      pure (BlockHeader.mk chomping indent, c)
    | none => do
      let (indent, c) ← readIndentMark c
      match indent, c.peek.bind chompingOf? with
      | some _, some chomping => pure (BlockHeader.mk chomping indent, c.next)
      | _, _ => pure (BlockHeader.mk .clip indent, c)
  if isGap c.peek then return (header, c) else malformed

/-- Reads empty lines before a block whose indentation is not known, and spaces before its first line.
Gives the ends of the lines and the largest column seen. -/
def leadingBreaks (widest : Nat) : Nat → Cursor → List Char × Nat × Cursor
  | 0, c => ([], widest, c)
  | bound + 1, c =>
    if c.peek == some ' ' then leadingBreaks (max widest c.next.column) bound c.next
    else
      match c.lineBreak? with
      | none => ([], widest, c)
      | some (ch, c) =>
        let (others, widest, c) := leadingBreaks widest bound c
        (ch :: others, widest, c)

/-- Skips spaces up to a column. -/
def skipIndent (indent : Nat) (c : Cursor) : Cursor :=
  c.skip (min (c.rest.takeWhile (· == ' ')).length (indent - c.column))

/-- Reads empty lines of a block, and the indentation of its next line. -/
def blockBreaks (indent : Nat) : Nat → Cursor → List Char × Cursor
  | 0, c => ([], c)
  | bound + 1, c =>
    let c := skipIndent indent c
    match c.lineBreak? with
    | none => ([], c)
    | some (ch, c) =>
      let (others, c) := blockBreaks indent bound c
      (ch :: others, c)

/-- Whether a line of a block begins here. -/
def beginsBlockLine (indent : Nat) (c : Cursor) : Bool := c.column == indent && c.peek.isSome

/-- What follows a line of a block before the next line: lines are folded unless one of them begins
with a blank. -/
def lineJoint (folds startsBlank : Bool) (first : List Char) (others : List Char) (c : Cursor) :
    List Char :=
  let nextBlank := c.peek == some ' ' || c.peek == some '\t'
  if folds && first == ['\n'] && !startsBlank && !nextBlank then
    (if others.isEmpty then [' '] else [])
  else first

/-- Reads the lines of a block. `breaks` are the ends of the empty lines before the next line. -/
def blockLines (folds : Bool) (header : BlockHeader) (indent : Nat) (breaks : List Char) :
    Nat → Cursor → List Char × Cursor
  | 0, c => ([], c)
  | bound + 1, c =>
    let startsBlank := c.peek == some ' ' || c.peek == some '\t'
    let (line, c) := c.takeWhile (!isBreak ·)
    let (first, c) :=
      match c.lineBreak? with
      | some (ch, c) => ([ch], c)
      | none => ([], c)
    let (others, c) := blockBreaks indent (c.rest.length + 1) c
    if beginsBlockLine indent c then
      let (rest, behind) := blockLines folds header indent others bound c
      (breaks ++ line ++ lineJoint folds startsBlank first others c ++ rest, behind)
    else
      let last :=
        match header.chomping with
        | .strip => []
        | .clip => first
        | .keep => first ++ others
      (breaks ++ line ++ last, c)

/-- Reads a block of lines behind its sign. Its lines are indented at least so far, unless the block
says how far. -/
def readBlock (folds : Bool) (least : Nat) (c : Cursor) : Reading (List Char × Cursor) := do
  let (header, c) ← readBlockHeader c.next
  let c ← readLineRest c
  let (breaks, indent, c) :=
    match header.indent with
    | some n =>
      let indent := least + n - 1
      let (breaks, c) := blockBreaks indent (c.rest.length + 1) c
      (breaks, indent, c)
    | none =>
      let (breaks, widest, c) := leadingBreaks 0 (c.rest.length + 1) c
      (breaks, max least widest, c)
  if beginsBlockLine indent c then
    return blockLines folds header indent breaks (c.rest.length + 1) c
  else
    return (if header.chomping = .keep then breaks else [], c)

end EmberAssist.Yaml
