import EmberAssist.Data.Numeral
import EmberAssist.Text.Search

/-! Tags, which tell what sort of value a node stands for. A plain scalar without a tag has the one that
its text suggests. -/
namespace EmberAssist.Yaml

/-- The tags that have a meaning. -/
inductive Tag where
  | null
  | bool
  | int
  | float
  | binary
  | timestamp
  | str
  | seq
  | map
  | omap
  | pairs
  | set
  | merge
  | value
  | unknown
deriving DecidableEq, Repr, Inhabited

/-- The beginning of the names of the tags that have a meaning. -/
def Tag.namePrefix : List Char := "tag:yaml.org,2002:".toList

/-- The tag with a name. -/
def Tag.ofName (name : List Char) : Tag :=
  match (Text.after? namePrefix name).map String.ofList with
  | some "null" => null
  | some "bool" => bool
  | some "int" => int
  | some "float" => float
  | some "binary" => binary
  | some "timestamp" => timestamp
  | some "str" => str
  | some "seq" => seq
  | some "map" => map
  | some "omap" => omap
  | some "pairs" => pairs
  | some "set" => set
  | some "merge" => merge
  | some "value" => value
  | _ => unknown

/-! ## Numbers -/

/-- A digit, or an underscore between digits. -/
def isDigitOrLine (c : Char) : Bool := c.isDigit || c == '_'

/-- A digit of hexadecimal numbers, or an underscore. -/
def isHexOrLine (c : Char) : Bool :=
  isDigitOrLine c || ('a' ≤ c && c ≤ 'f') || ('A' ≤ c && c ≤ 'F')

/-- A text that is not empty and has only characters of a class. -/
def allSome (p : Char → Bool) (chars : List Char) : Bool := !chars.isEmpty && chars.all p

/-- A part of a number in base sixty: at most two digits, and below sixty. -/
def isSixtieth : List Char → Bool
  | [c] => c.isDigit
  | [a, b] => '0' ≤ a && a ≤ '5' && b.isDigit
  | _ => false

/-- Whole part and sixtieths of a number in base sixty, with colons between them. -/
def isBaseSixty (chars : List Char) : Bool :=
  match Text.splitOn ':' chars with
  | (first :: whole) :: part :: parts =>
    first.isDigit && whole.all isDigitOrLine && (part :: parts).all isSixtieth
  | _ => false

/-- Whether a text suggests a whole number. -/
def looksLikeInt (chars : List Char) : Bool :=
  match (Data.splitSign chars).2 with
  | ['0'] => true
  | '0' :: 'b' :: digits => allSome (fun c => c == '0' || c == '1' || c == '_') digits
  | '0' :: 'x' :: digits => allSome isHexOrLine digits
  | '0' :: digits => allSome (fun c => ('0' ≤ c && c ≤ '7') || c == '_') digits
  | first :: digits =>
    first.isDigit && (digits.all isDigitOrLine || isBaseSixty (first :: digits))
  | [] => false

/-- Whether a text is nothing or an exponent of ten, which has a sign. -/
def isExponentOrEmpty : List Char → Bool
  | [] => true
  | mark :: sign :: digits =>
    (mark == 'e' || mark == 'E') && (sign == '+' || sign == '-') && allSome Char.isDigit digits
  | [_] => false

/-- Whether a text suggests a number of double precision, which has a point. Before a point that
begins the number no sign may stand. -/
def looksLikeFloat (chars : List Char) : Bool :=
  let body := (Data.splitSign chars).2
  let (whole, rest) := body.span fun c => isDigitOrLine c || c == ':'
  match rest with
  | '.' :: rest =>
    let (fraction, rest) := rest.span isDigitOrLine
    if whole.isEmpty then
      (body == chars && fraction.head?.any Char.isDigit && isExponentOrEmpty rest) ||
        (fraction.isEmpty && [".inf", ".Inf", ".INF"].contains (String.ofList ('.' :: rest))) ||
        (body == chars && fraction.isEmpty &&
          [".nan", ".NaN", ".NAN"].contains (String.ofList ('.' :: rest)))
    else
      (whole.head?.any Char.isDigit && !whole.contains ':' && isExponentOrEmpty rest) ||
        (isBaseSixty whole && rest.isEmpty)
  | _ => false

/-! ## Days and moments -/

/-- A day or a moment as it is written. -/
structure Timestamp where
  day : Data.Day
  /-- Hour, minute, second, the digits behind the point, and by how much the clock is ahead. -/
  time : Option (Nat × Nat × Nat × List Char × Option Int)
deriving Repr

/-- Reads digits: at least `least` and at most `most` of them. -/
def readDigits? (least most : Nat) (chars : List Char) : Option (Nat × List Char) :=
  let digits := (chars.take most).takeWhile Char.isDigit
  if digits.length < least then none else some (Text.digitsValue digits, chars.drop digits.length)

/-- Reads a given character. -/
def readMark? (mark : Char) : List Char → Option (List Char)
  | c :: rest => if c == mark then some rest else none
  | [] => none

/-- Drops blanks. -/
def dropBlanks (chars : List Char) : List Char := chars.dropWhile fun c => c == ' ' || c == '\t'

/-- Reads by how many minutes a clock is ahead, which may be left out with the blanks before it. -/
def readAhead? (chars : List Char) : Option (Option Int) :=
  if chars.isEmpty then some none
  else
    match dropBlanks chars with
    | ['Z'] => some (some 0)
    | sign :: rest => do
      if sign != '+' && sign != '-' then none
      else
        let (hours, rest) ← readDigits? 1 2 rest
        let minutes ←
          if rest.isEmpty then pure 0
          else do
            let (minutes, rest) ← readDigits? 2 2 (← readMark? ':' rest)
            if rest.isEmpty then pure minutes else none
        let total : Int := 60 * hours + minutes
        return some (if sign == '-' then -total else total)
    | [] => none

/-- Reads the time of a moment behind its day. -/
def readTime? (chars : List Char) : Option (Nat × Nat × Nat × List Char × Option Int) := do
  let rest ←
    match chars with
    | 'T' :: rest => some rest
    | 't' :: rest => some rest
    | c :: _ => if c == ' ' || c == '\t' then some (dropBlanks chars) else none
    | [] => none
  let (hour, rest) ← readDigits? 1 2 rest
  let (minute, rest) ← readDigits? 2 2 (← readMark? ':' rest)
  let (second, rest) ← readDigits? 2 2 (← readMark? ':' rest)
  let (fraction, rest) :=
    match rest with
    | '.' :: rest => rest.span Char.isDigit
    | rest => ([], rest)
  return (hour, minute, second, fraction, ← readAhead? rest)

/-- Reads a day or a moment. -/
def readTimestamp? (chars : List Char) : Option Timestamp := do
  let (year, rest) ← readDigits? 4 4 chars
  let (month, rest) ← readDigits? 1 2 (← readMark? '-' rest)
  let (dayOfMonth, rest) ← readDigits? 1 2 (← readMark? '-' rest)
  let day : Data.Day := ⟨year, month, dayOfMonth⟩
  if rest.isEmpty then return ⟨day, none⟩ else return ⟨day, some (← readTime? rest)⟩

/-- Whether a text suggests a day or a moment. In a day alone, month and day have two digits. -/
def looksLikeTimestamp (chars : List Char) : Bool :=
  match readTimestamp? chars with
  | some ⟨_, none⟩ => chars.length == 10
  | some _ => true
  | none => false

/-! ## Suggestions -/

/-- The words for truth values. -/
def truthWords : List (String × Bool) :=
  [("yes", true), ("no", false), ("true", true), ("false", false), ("on", true), ("off", false)]

/-- A word as it is, with a capital letter, or in capital letters. -/
def spellings (word : String) : List (List Char) :=
  let chars := word.toList
  [chars, (chars.take 1).map Char.toUpper ++ chars.drop 1, chars.map Char.toUpper]

/-- The text without a line feed at its end. -/
def dropFinalBreak (chars : List Char) : List Char :=
  if chars.getLast? == some '\n' then chars.dropLast else chars

/-- The tag that a text suggests. A line feed at the end does not count. -/
def Tag.suggested (chars : List Char) : Tag :=
  let text := dropFinalBreak chars
  if truthWords.any fun (word, _) => (spellings word).contains text then bool
  else if looksLikeFloat text then float
  else if looksLikeInt text then int
  else if text == ['<', '<'] then merge
  else if text == ['~'] || text.isEmpty && chars.isEmpty || (spellings "null").contains text then null
  else if looksLikeTimestamp text then timestamp
  else if text == ['='] then value
  else if text == ['!'] || text == ['&'] || text == ['*'] then unknown
  else str

end EmberAssist.Yaml
