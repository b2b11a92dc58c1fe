import EmberAssist.Data.Numeral
import EmberAssist.Text.Utf8
import EmberAssist.Yaml.Token

/-! Directives, anchors and tags. -/
namespace EmberAssist.Yaml

/-- A character of a name. -/
def isNameChar (c : Char) : Bool := c.isAlphanum || c == '-' || c == '_'

/-- A character of a URI in a tag. A percent sign begins an escape. -/
def isUriChar (c : Char) : Bool := c.isAlphanum || "-;/?:@&=+$,_.!~*'()[]".toList.contains c

/-- Reads escapes of bytes, as many as follow one another. -/
def escapedBytes : Nat → Cursor → Reading (List UInt8 × Cursor)
  | 0, _ => malformed
  | bound + 1, c =>
    if c.peek == some '%' then
      match (c.rest.drop 1).take 2 with
      | [high, low] =>
        if [high, low].all fun digit => digit.toNat < 0x80 then
          match Data.digitsFrom? 16 0 [high, low] with
          | some n => do
            let (bytes, c) ← escapedBytes bound (c.skip 3)
            return (.ofNat n :: bytes, c)
          | none => malformed
        else malformed
      | _ => malformed
    else .ok ([], c)

/-- Reads the characters of a URI. -/
def uriChars : Nat → Cursor → Reading (List Char × Cursor)
  | 0, _ => malformed
  | bound + 1, c =>
    match c.peek with
    | some '%' => do
      let (bytes, c) ← escapedBytes (c.rest.length + 1) c
      match Text.decodeUtf8? bytes with
      | some chars =>
        let (others, c) ← uriChars bound c
        return (chars ++ others, c)
      | none => malformed
    | some ch =>
      if isUriChar ch then do
        let (others, c) ← uriChars bound c.next
        return (ch :: others, c)
      else .ok ([], c)
    | none => .ok ([], c)

/-- Reads a URI, which has a character at least. -/
def readUri (c : Cursor) : Reading (List Char × Cursor) :=
  match c.peek with
  | some ch => if isUriChar ch || ch == '%' then uriChars (c.rest.length + 1) c else malformed
  | none => malformed

/-- Reads the handle of a tag: an exclamation mark, or a name between two of them. -/
def readHandle (c : Cursor) : Reading (List Char × Cursor) :=
  match c.rest with
  | '!' :: ' ' :: _ => .ok (['!'], c.next)
  | '!' :: rest =>
    let name := rest.takeWhile isNameChar
    match rest.drop name.length with
    | '!' :: _ => .ok ('!' :: name ++ ['!'], c.skip (name.length + 2))
    | _ => malformed
  | _ => malformed

/-- Reads a number in a directive. -/
def readDirectiveNumber (c : Cursor) : Reading (Nat × Cursor) :=
  match c.takeWhile Char.isDigit with
  | ([], _) => malformed
  | (digits, c) => .ok (Text.digitsValue digits, c)

/-- Reads the version of a directive. -/
def readVersion (c : Cursor) : Reading (Token × Cursor) := do
  let (major, c) ← readDirectiveNumber c.skipSpaces
  if c.peek != some '.' then malformed
  else
    let (_, c) ← readDirectiveNumber c.next
    if isGap c.peek then return (.version major, c) else malformed

/-- Reads the handle that a directive declares and what it stands for. -/
def readTagHandle (c : Cursor) : Reading (Token × Cursor) := do
  let (handle, c) ← readHandle c.skipSpaces
  if c.peek != some ' ' then malformed
  else
    let (meaning, c) ← readUri c.skipSpaces
    if isGap c.peek then return (.tagHandle handle meaning, c) else malformed

/-- Reads spaces and a comment up to the end of the line, and that. -/
def readLineRest (c : Cursor) : Reading Cursor :=
  let c := c.skipSpaces.skipComment
  if endsLine c.peek then .ok c.skipBreak else malformed

/-- Reads a directive, which takes a line. -/
def readDirective (c : Cursor) : Reading (Token × Cursor) := do
  let (name, c) := c.next.takeWhile isNameChar
  if name.isEmpty || !isGap c.peek then malformed
  else
    let (token, c) ←
      if name == "YAML".toList then readVersion c
      else if name == "TAG".toList then readTagHandle c
      else pure (.otherDirective, c.skipWhile (!isBreak ·))
    return (token, ← readLineRest c)

/-- Reads the name of an anchor or an alias behind its mark. -/
def readName (c : Cursor) : Reading (List Char × Cursor) :=
  let (name, c) := c.next.takeWhile isNameChar
  let ends := isWideGap c.peek ||
    c.peek.any fun ch => ['?', ':', ',', ']', '\x7d', '%', '@', Char.ofNat 0x60].contains ch
  if name.isEmpty || !ends then malformed else .ok (name, c)

/-- Whether a second exclamation mark comes before the next gap, so that a tag has a handle. -/
def hasHandle (c : Cursor) : Bool :=
  ((c.rest.drop 1).takeWhile fun ch => !isGap (some ch)).contains '!'

/-- Reads a tag. -/
def readTag (c : Cursor) : Reading (Token × Cursor) := do
  let (written, c) ←
    if c.peekAt 1 == some '<' then do
      let (uri, c) ← readUri (c.skip 2)
      if c.peek == some '>' then pure (WrittenTag.mk none uri, c.next) else malformed
    else if isWideGap (c.peekAt 1) then pure (WrittenTag.mk none ['!'], c.next)
    else do
      let (handle, c) ← if hasHandle c then readHandle c else pure (['!'], c.next)
      let (rest, c) ← readUri c
      pure (WrittenTag.mk (some handle) rest, c)
  if isGap c.peek then return (.tag written, c) else malformed

end EmberAssist.Yaml
