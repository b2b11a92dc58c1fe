import EmberAssist.Yaml.Scalar

/-! The tokens of a text. A key may be any short scalar or collection of one line, and that it was one
shows only at the colon behind it; the token that announces a key is then put in before it. -/
namespace EmberAssist.Yaml

/-- A place where a key may have begun: how many tokens stand before it and where it is. A key is
required where the block cannot go on with anything else. -/
structure PossibleKey where
  before : Nat
  required : Bool
  offset : Nat
  line : Nat
  column : Nat
deriving Repr

/-- How many characters a key may have before its colon. -/
def longestKey : Nat := 1024

/-- What is known while tokens are read. -/
structure Lexer where
  cursor : Cursor
  /-- The tokens read so far, the latest first. -/
  tokens : List Token
  /-- The column of the innermost block, one before the first if there is none. -/
  indent : Int
  /-- The columns of the blocks around the innermost one. -/
  outer : List Int
  /-- How many brackets and braces are open. -/
  depth : Nat
  /-- Whether a key may begin here. -/
  allowsKey : Bool
  /-- The possible keys, at most one at each depth. -/
  keys : List (Nat × PossibleKey)
deriving Repr

namespace Lexer

/-- The beginning of a text. -/
def ofText (chars : List Char) : Lexer := ⟨.ofText chars, [], -1, [], 0, true, []⟩

/-- Whether something is open that is closed by a bracket or a brace. -/
def inFlow (l : Lexer) : Bool := 0 < l.depth

/-- Adds a token. -/
def push (l : Lexer) (token : Token) : Lexer := { l with tokens := token :: l.tokens }

/-- Puts a token behind so many others. -/
def insert (l : Lexer) (before : Nat) (token : Token) : Lexer :=
  let late := l.tokens.length - before
  { l with tokens := l.tokens.take late ++ token :: l.tokens.drop late }

/-- Goes on behind some characters. -/
def skip (l : Lexer) (n : Nat) : Lexer := { l with cursor := l.cursor.skip n }

/-- Forgets possible keys that are too far away. -/
def dropStale (l : Lexer) : Reading Lexer :=
  let isStale := fun (key : PossibleKey) =>
    key.line != l.cursor.line || longestKey < l.cursor.offset - key.offset
  if l.keys.any fun (_, key) => isStale key && key.required then malformed
  else .ok { l with keys := l.keys.filter fun (_, key) => !isStale key }

/-- The possible key at the present depth. -/
def key? (l : Lexer) : Option PossibleKey := l.keys.lookup l.depth

/-- The lexer without the possible key at the present depth. -/
def withoutKey (l : Lexer) : Lexer := { l with keys := l.keys.filter (·.1 != l.depth) }

/-- Forgets the possible key at the present depth, which must not be required. -/
def dropKey (l : Lexer) : Reading Lexer :=
  if l.key?.any (·.required) then malformed else .ok l.withoutKey

/-- Remembers that a key may begin here. -/
def saveKey (l : Lexer) : Reading Lexer := do
  if l.allowsKey then
    let required := !l.inFlow && l.indent == l.cursor.column
    let l ← l.dropKey
    let key : PossibleKey :=
      ⟨l.tokens.length, required, l.cursor.offset, l.cursor.line, l.cursor.column⟩
    return { l with keys := (l.depth, key) :: l.keys }
  else return l

/-- Ends the blocks that are indented farther than a column. -/
def closeBlocks (column : Int) (l : Lexer) : Lexer :=
  if l.inFlow then l
  else
    let rec close (tokens : List Token) (indent : Int) : List Int → List Token × Int × List Int
      | [] => (tokens, indent, [])
      | next :: outer =>
        if column < indent then close (.blockEnd :: tokens) next outer
        else (tokens, indent, next :: outer)
    let (tokens, indent, outer) := close l.tokens l.indent l.outer
    { l with tokens, indent, outer }

/-- Whether a block at a column would be a new one. -/
def opensBlock (l : Lexer) (column : Nat) : Bool := l.indent < column

/-- Begins a block. -/
def openBlock (l : Lexer) (column : Nat) : Lexer :=
  { l with indent := column, outer := l.indent :: l.outer }

/-- Skips blanks, comments and ends of lines. A key may begin at the beginning of a line. -/
def skipToToken : Nat → Lexer → Lexer
  | 0, l => l
  | bound + 1, l =>
    let c := l.cursor.skipSpaces.skipComment
    match c.lineBreak? with
    | some (_, c) => skipToToken bound { l with cursor := c, allowsKey := l.allowsKey || !l.inFlow }
    | none => { l with cursor := c }

/-- Skips the mark of byte order at the beginning of the text. -/
def skipByteOrderMark (l : Lexer) : Lexer :=
  if l.cursor.offset = 0 && l.cursor.peek == some byteOrderMark then l.skip 1 else l

/-! ## The kinds of token -/

/-- A token that stands between documents. -/
def betweenDocuments (l : Lexer) (read : Cursor → Reading (Token × Cursor)) : Reading Lexer := do
  let l ← (l.closeBlocks (-1)).dropKey
  let (token, c) ← read l.cursor
  return { l.push token with cursor := c, allowsKey := false }

/-- A bracket or brace that opens a collection. -/
def openFlow (l : Lexer) (token : Token) : Reading Lexer := do
  let l ← l.saveKey
  return ({ l with depth := l.depth + 1, allowsKey := true }.push token).skip 1

/-- A bracket or brace that closes a collection. -/
def closeFlow (l : Lexer) (token : Token) : Reading Lexer := do
  let l ← l.dropKey
  if l.depth = 0 then malformed
  else return ({ l with depth := l.depth - 1, allowsKey := false }.push token).skip 1

/-- A comma between the parts of a collection. -/
def flowEntry (l : Lexer) : Reading Lexer := do
  let l ← l.dropKey
  return ({ l with allowsKey := true }.push .flowEntry).skip 1

/-- A dash before an item of a block. -/
def blockEntry (l : Lexer) : Reading Lexer := do
  if !l.inFlow && !l.allowsKey then malformed
  else
    let opens := !l.inFlow && l.opensBlock l.cursor.column
    let l := if opens then (l.openBlock l.cursor.column).push .blockSequence else l
    let l ← l.dropKey
    return ({ l with allowsKey := true }.push .blockEntry).skip 1

/-- A question mark before a key. -/
def keyMark (l : Lexer) : Reading Lexer := do
  if !l.inFlow && !l.allowsKey then malformed
  else
    let opens := !l.inFlow && l.opensBlock l.cursor.column
    let l := if opens then (l.openBlock l.cursor.column).push .blockMapping else l
    let l ← l.dropKey
    return ({ l with allowsKey := !l.inFlow }.push .key).skip 1

/-- A colon before a value. It shows that a possible key is one. -/
def valueMark (l : Lexer) : Reading Lexer := do
  match l.key? with
  | some key =>
    let opens := !l.inFlow && l.opensBlock key.column
    let l := l.withoutKey.insert key.before .key
    let l := if opens then (l.openBlock key.column).insert key.before .blockMapping else l
    return ({ l with allowsKey := false }.push .value).skip 1
  | none =>
    if !l.inFlow && !l.allowsKey then malformed
    else
      let opens := !l.inFlow && l.opensBlock l.cursor.column
      let l := if opens then (l.openBlock l.cursor.column).push .blockMapping else l
      let l ← l.dropKey
      return ({ l with allowsKey := !l.inFlow }.push .value).skip 1

/-- A token with which a key may begin. -/
def keyPart (l : Lexer) (read : Cursor → Reading (Token × Cursor)) : Reading Lexer := do
  let l ← l.saveKey
  let (token, c) ← read l.cursor
  return { l.push token with cursor := c, allowsKey := false }

/-- A plain scalar. A key may follow it if it ended with its line. -/
def plainScalar (l : Lexer) : Reading Lexer := do
  let l ← l.saveKey
  let scalar := readPlain l.inFlow (l.indent + 1).toNat l.cursor
  return { l.push (.scalar scalar.chars true) with
    cursor := scalar.behind, allowsKey := scalar.endsLine }

/-- A block of lines. -/
def blockScalar (folds : Bool) (l : Lexer) : Reading Lexer := do
  let l ← l.dropKey
  let (chars, c) ← readBlock folds (max (l.indent + 1) 1).toNat l.cursor
  return { l.push (.scalar chars false) with cursor := c, allowsKey := true }

/-- Reads a scalar in quotes. -/
def quotedScalar (quote : Char) (c : Cursor) : Reading (Token × Cursor) := do
  let (chars, c) ← readQuoted quote c
  return (.scalar chars false, c)

/-- Whether a plain scalar begins here. -/
def beginsPlain (l : Lexer) (ch : Char) : Bool :=
  let special := "-?:,[]\x7b\x7d#&*!|>'\"%@".toList ++ [Char.ofNat 0x60]
  let followed := !isWideGap (l.cursor.peekAt 1)
  (!isWideGap (some ch) && !special.contains ch) ||
    (followed && (ch == '-' || (!l.inFlow && (ch == '?' || ch == ':'))))

/-- Reads the token that begins here. -/
def readToken (l : Lexer) (ch : Char) : Reading Lexer :=
  let c := l.cursor
  let gapFollows := isWideGap (c.peekAt 1)
  if ch == '%' && c.column == 0 then l.betweenDocuments readDirective
  else if c.column == 0 && c.seesMarks '-' then
    l.betweenDocuments fun c => .ok (.documentStart, c.skip 3)
  else if c.column == 0 && c.seesMarks '.' then
    l.betweenDocuments fun c => .ok (.documentEnd, c.skip 3)
  else if ch == '[' then l.openFlow .flowSequence
  else if ch == '\x7b' then l.openFlow .flowMapping
  else if ch == ']' then l.closeFlow .flowSequenceEnd
  else if ch == '\x7d' then l.closeFlow .flowMappingEnd
  else if ch == ',' then l.flowEntry
  else if ch == '-' && gapFollows then l.blockEntry
  else if ch == '?' && (l.inFlow || gapFollows) then l.keyMark
  else if ch == ':' && (l.inFlow || gapFollows) then l.valueMark
  else if ch == '*' then l.keyPart fun c => (readName c).map fun (name, c) => (.alias name, c)
  else if ch == '&' then l.keyPart fun c => (readName c).map fun (name, c) => (.anchor name, c)
  else if ch == '!' then l.keyPart readTag
  else if ch == '|' && !l.inFlow then l.blockScalar false
  else if ch == '>' && !l.inFlow then l.blockScalar true
  else if ch == '\'' || ch == '"' then l.keyPart (quotedScalar ch)
  else if l.beginsPlain ch then l.plainScalar
  else malformed

/-- The tokens read so far, in the order of the text. -/
def read (l : Lexer) : List Token := l.tokens.reverse

/-- Reads tokens up to the end of the text, or to the first fault. -/
def run : Nat → Lexer → List Token × Option Data.DocumentFault
  | 0, l => (l.read, some .malformed)
  | bound + 1, l =>
    match (l.skipToToken (l.cursor.rest.length + 1)).dropStale with
    | .error fault => (l.read, some fault)
    | .ok l =>
      let l := l.closeBlocks l.cursor.column
      match l.cursor.peek with
      | none =>
        match (l.closeBlocks (-1)).dropKey with
        | .ok l => (l.read, none)
        | .error fault => (l.read, some fault)
      | some ch =>
        match l.readToken ch with
        | .ok l => run bound l
        | .error fault => (l.read, some fault)

end Lexer

/-- The tokens of a text, and what is wrong behind them if the text cannot be read to its end. -/
def tokensOf (chars : List Char) : List Token × Option Data.DocumentFault :=
  (Lexer.ofText chars).skipByteOrderMark.run (chars.length + 1)

end EmberAssist.Yaml
