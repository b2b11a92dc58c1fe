import EmberAssist.Data.Numeral
import EmberAssist.Data.Value

/-! JSON documents. Besides the standard they may hold the words for numbers that are infinite or
undefined. -/
namespace EmberAssist.Data.Json

/-- A space between the parts of a document. -/
def isSpace (c : Char) : Bool := c == ' ' || c == '\t' || c == '\n' || c == '\r'

/-- Skips spaces. -/
def skipSpaces (chars : List Char) : List Char := chars.dropWhile isSpace

/-- A code unit of four hexadecimal digits and what follows it. -/
def codeUnit? : List Char → Option (Nat × List Char)
  | a :: b :: c :: d :: rest =>
    if [a, b, c, d].all fun digit => digit.isDigit || (anyDigit? digit.toLower).any (10 ≤ ·) then
      (digitsFrom? 16 0 [a, b, c, d]).map (·, rest)
    else none
  | _ => none

/-- The character of two code units that belong together. -/
def paired? (high low : Nat) : Option Char :=
  if 0xD800 ≤ high ∧ high < 0xDC00 ∧ 0xDC00 ≤ low ∧ low < 0xE000 then
    some (Char.ofNat (0x10000 + (high - 0xD800) * 0x400 + (low - 0xDC00)))
  else none

/-- The character of a code unit; half a character alone becomes the replacement character. -/
def unitChar (unit : Nat) : Char :=
  if 0xD800 ≤ unit ∧ unit < 0xE000 then Char.ofNat 0xFFFD else Char.ofNat unit

/-- The character of an escape with its code unit, of which the next escape may hold the other half. -/
def escapedUnit? (chars : List Char) : Option (Char × List Char) := do
  let (unit, rest) ← codeUnit? chars
  match rest with
  | '\\' :: 'u' :: more =>
    match codeUnit? more with
    | some (low, behind) =>
      match paired? unit low with
      | some c => return (c, behind)
      | none => return (unitChar unit, rest)
    | none => return (unitChar unit, rest)
  | _ => return (unitChar unit, rest)

/-- The character that an escape means by one letter. -/
def escapedLetter? : Char → Option Char
  | '"' => some '"'
  | '\\' => some '\\'
  | '/' => some '/'
  | 'b' => some '\x08'
  | 'f' => some '\x0c'
  | 'n' => some '\n'
  | 'r' => some '\r'
  | 't' => some '\t'
  | _ => none

/-- The rest of a string behind its opening quote, and what follows the closing quote. The bound
counts characters. -/
def stringTail? : Nat → List Char → Option (List Char × List Char)
  | 0, _ => none
  | _, [] => none
  | _, '"' :: rest => some ([], rest)
  | bound + 1, '\\' :: 'u' :: rest => do
    let (c, rest) ← escapedUnit? rest
    let (chars, rest) ← stringTail? bound rest
    return (c :: chars, rest)
  | bound + 1, '\\' :: letter :: rest => do
    let c ← escapedLetter? letter
    let (chars, rest) ← stringTail? bound rest
    return (c :: chars, rest)
  | bound + 1, c :: rest =>
    if c.toNat < 0x20 then none
    else (stringTail? bound rest).map fun (chars, rest) => (c :: chars, rest)

/-- Reads a string behind its opening quote. -/
def readString? (chars : List Char) : Option (List Char × List Char) :=
  stringTail? (chars.length + 1) chars

/-- Digits behind a point, and what follows them; none if there is no digit. -/
def splitFraction : List Char → List Char × List Char
  | '.' :: rest =>
    match rest.span Char.isDigit with
    | ([], _) => ([], '.' :: rest)
    | (digits, behind) => ('.' :: digits, behind)
  | chars => ([], chars)

/-- An exponent of ten with its mark, and what follows it; none if it has no digit. -/
def splitExponent : List Char → List Char × List Char
  | mark :: rest =>
    if mark == 'e' || mark == 'E' then
      let (sign, rest') := rest.span fun c => c == '+' || c == '-'
      match rest'.span Char.isDigit with
      | ([], _) => ([], mark :: rest)
      | (digits, behind) => if sign.length ≤ 1 then (mark :: sign ++ digits, behind) else ([], mark :: rest)
    else ([], mark :: rest)
  | [] => ([], [])

/-- The digits before the point, without superfluous zeros, and what follows them. -/
def splitWhole? : List Char → Option (List Char × List Char)
  | '0' :: rest => some (['0'], rest)
  | c :: rest => if c.isDigit then some ((c :: rest).span Char.isDigit) else none
  | [] => none

/-- Reads a number. Without a point and an exponent it is a whole number. -/
def readNumber (negative : Bool) (chars : List Char) :
    Except DocumentFault (Scalar × List Char) :=
  match splitWhole? chars with
  | none => .error .malformed
  | some (whole, rest) =>
    let (fraction, rest) := splitFraction rest
    let (exponent, rest) := splitExponent rest
    if fraction.isEmpty && exponent.isEmpty then
      match readInteger 10 whole with
      | .ok n => .ok (.int (if negative then -n else n), rest)
      | .error fault => .error (.value fault)
    else
      match readDecimal? negative (whole ++ fraction ++ exponent) with
      | some x => .ok (.float x, rest)
      | none => .error .malformed

/-- Reads a word for a value. -/
def readWord? (chars : List Char) : Option (Scalar × List Char) :=
  let words : List (String × Scalar) :=
    [("null", .null), ("true", .bool true), ("false", .bool false), ("NaN", .float .nan),
      ("Infinity", .float (.infinite false)), ("-Infinity", .float (.infinite true))]
  words.findSome? fun (word, value) => (Text.after? word.toList chars).map (value, ·)

/-- Reads a value without parts that is no string. -/
def readPlain (chars : List Char) : Except DocumentFault (Scalar × List Char) :=
  match readWord? chars with
  | some found => .ok found
  | none =>
    match chars with
    | '-' :: rest => readNumber true rest
    | _ => readNumber false chars

mutual

/-- Reads a value. The bound counts characters. -/
def readValue : Nat → List Char → Except DocumentFault (Value × List Char)
  | 0, _ => .error .malformed
  | bound + 1, '[' :: rest =>
    match skipSpaces rest with
    | ']' :: rest => .ok (.list [], rest)
    | rest => do
      let (items, rest) ← readItems bound rest
      return (.list items, rest)
  | bound + 1, '\x7b' :: rest =>
    match skipSpaces rest with
    | '\x7d' :: rest => .ok (.map [], rest)
    | rest => do
      let (entries, rest) ← readEntries bound rest
      return (.ofEntries entries, rest)
  | _ + 1, '"' :: rest =>
    match readString? rest with
    | some (chars, rest) => .ok (.scalar (.text chars), rest)
    | none => .error .malformed
  | _ + 1, chars => do
    let (value, rest) ← readPlain chars
    return (.scalar value, rest)

/-- Reads the items of a list, at least one, and the closing bracket. -/
def readItems : Nat → List Char → Except DocumentFault (List Value × List Char)
  | 0, _ => .error .malformed
  | bound + 1, chars => do
    let (item, rest) ← readValue bound chars
    match skipSpaces rest with
    | ']' :: rest => return ([item], rest)
    | ',' :: rest =>
      let (items, rest) ← readItems bound (skipSpaces rest)
      return (item :: items, rest)
    | _ => throw .malformed

/-- Reads the entries of a mapping, at least one, and the closing brace. -/
def readEntries : Nat → List Char → Except DocumentFault (List (Scalar × Value) × List Char)
  | bound + 1, '"' :: rest =>
    match readString? rest with
    | none => .error .malformed
    | some (key, rest) =>
      match skipSpaces rest with
      | ':' :: rest => do
        let (value, rest) ← readValue bound (skipSpaces rest)
        match skipSpaces rest with
        | '\x7d' :: rest => return ([(.text key, value)], rest)
        | ',' :: rest =>
          let (entries, rest) ← readEntries bound (skipSpaces rest)
          return ((.text key, value) :: entries, rest)
        | _ => throw .malformed
      | _ => .error .malformed
  | _, _ => .error .malformed

end

/-- Reads a document, which is one value with spaces around it (`loads`). -/
def read (chars : List Char) : Except DocumentFault Value := do
  let (value, rest) ← readValue (2 * chars.length + 2) (skipSpaces chars)
  if (skipSpaces rest).isEmpty then return value else throw .malformed

end EmberAssist.Data.Json
