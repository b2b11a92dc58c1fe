/-! The bytes of a text. Reading them back tells every stretch of bytes that is no character. -/
namespace EmberAssist.Text

/-- The bytes of a character, one to four of them. -/
def utf8Char (c : Char) : List UInt8 :=
  let n := c.toNat
  if n < 0x80 then [.ofNat n]
  else if n < 0x800 then [.ofNat (0xC0 + n / 0x40), .ofNat (0x80 + n % 0x40)]
  else if n < 0x10000 then
    [.ofNat (0xE0 + n / 0x1000), .ofNat (0x80 + n / 0x40 % 0x40), .ofNat (0x80 + n % 0x40)]
  else
    [.ofNat (0xF0 + n / 0x40000), .ofNat (0x80 + n / 0x1000 % 0x40),
      .ofNat (0x80 + n / 0x40 % 0x40), .ofNat (0x80 + n % 0x40)]

/-- The bytes of a text. -/
def utf8 (chars : List Char) : List UInt8 := chars.flatMap utf8Char

/-- How many bytes a character has. -/
def utf8Width (c : Char) : Nat :=
  let n := c.toNat
  if n < 0x80 then 1 else if n < 0x800 then 2 else if n < 0x10000 then 3 else 4

/-- How many bytes a text has. -/
def utf8Length (chars : List Char) : Nat := (chars.map utf8Width).foldr (· + ·) 0

/-- How many characters of a text end within its first so many bytes. -/
def charsWithin (bytes : Nat) : List Char → Nat
  | [] => 0
  | c :: rest => if utf8Width c ≤ bytes then 1 + charsWithin (bytes - utf8Width c) rest else 0

/-- A character of which some bytes have been read: how many are still to come, between which bounds
the next must lie, and the number read so far. -/
structure PendingChar where
  remaining : Nat
  low : Nat
  high : Nat
  value : Nat

/-- What a byte begins. -/
inductive LeadByte where
  | whole (c : Char)
  | pending (p : PendingChar)
  | invalid

/-- What a byte begins. The bounds on the byte behind it rule out overlong forms, surrogates and
numbers that are too large. -/
def leadByte (byte : UInt8) : LeadByte :=
  let n := byte.toNat
  if n < 0x80 then .whole (Char.ofNat n)
  else if n < 0xC2 then .invalid
  else if n < 0xE0 then .pending ⟨1, 0x80, 0xBF, n - 0xC0⟩
  else if n < 0xF0 then
    .pending ⟨2, if n = 0xE0 then 0xA0 else 0x80, if n = 0xED then 0x9F else 0xBF, n - 0xE0⟩
  else if n < 0xF5 then
    .pending ⟨3, if n = 0xF0 then 0x90 else 0x80, if n = 0xF4 then 0x8F else 0xBF, n - 0xF0⟩
  else .invalid

/-- The characters that bytes stand for, nothing standing for a stretch that is no character. The
stretch ends before the first byte that cannot continue it. -/
def charsFrom : Option PendingChar → List UInt8 → List (Option Char)
  | none, [] => []
  | some _, [] => [none]
  | none, byte :: rest =>
    match leadByte byte with
    | .whole c => some c :: charsFrom none rest
    | .pending p => charsFrom (some p) rest
    | .invalid => none :: charsFrom none rest
  | some p, byte :: rest =>
    let n := byte.toNat
    if p.low ≤ n && n ≤ p.high then
      let value := p.value * 0x40 + (n - 0x80)
      if p.remaining ≤ 1 then some (Char.ofNat value) :: charsFrom none rest
      else charsFrom (some ⟨p.remaining - 1, 0x80, 0xBF, value⟩) rest
    else
      match leadByte byte with
      | .whole c => none :: some c :: charsFrom none rest
      | .pending next => none :: charsFrom (some next) rest
      | .invalid => none :: none :: charsFrom none rest

/-- The text that bytes stand for, with the replacement character for every stretch that is none. -/
def decodeLossy (bytes : List UInt8) : List Char :=
  (charsFrom none bytes).map (·.getD (Char.ofNat 0xFFFD))

/-- The text that bytes stand for, if all of them do. -/
def decodeUtf8? (bytes : List UInt8) : Option (List Char) :=
  (charsFrom none bytes).mapM id

end EmberAssist.Text
