import EmberAssist.Data.Fault
import EmberAssist.Number.Double
import EmberAssist.Text.Blank
import EmberAssist.Text.DecimalDigit

/-! Numbers as documents write them. -/
namespace EmberAssist.Data

/-- A sign at the beginning of a text, and what follows it. -/
def splitSign : List Char → Bool × List Char
  | '-' :: rest => (true, rest)
  | '+' :: rest => (false, rest)
  | chars => (false, chars)

/-- What a digit counts; letters are the digits from ten on. -/
def anyDigit? (c : Char) : Option Nat :=
  if 'a' ≤ c ∧ c ≤ 'z' then some (c.toNat - 87)
  else if 'A' ≤ c ∧ c ≤ 'Z' then some (c.toNat - 55)
  else Text.digitValue? c

/-- Reads digits of a base after others. -/
def digitsFrom? (base total : Nat) : List Char → Option Nat
  | [] => some total
  | c :: rest =>
    match anyDigit? c with
    | some digit => if digit < base then digitsFrom? base (base * total + digit) rest else none
    | none => none

/-- Drops the mark of a base, two characters that may stand before its digits. -/
def dropBaseMark (base : Nat) : List Char → List Char
  | '0' :: mark :: rest =>
    if (base == 2 && (mark == 'b' || mark == 'B')) || (base == 8 && (mark == 'o' || mark == 'O')) ||
        (base == 16 && (mark == 'x' || mark == 'X')) then rest
    else '0' :: mark :: rest
  | chars => chars

/-- Reads a whole number: blanks, a sign, the mark of the base, digits, blanks. -/
def readInteger (base : Nat) (chars : List Char) : Except ValueFault Int :=
  let (negative, body) := splitSign (Text.trim Text.isBlank chars)
  let digits := dropBaseMark base body
  match digits, digitsFrom? base 0 digits with
  | [], _ => .error (.noInteger base chars)
  | _, none => .error (.noInteger base chars)
  | _, some n =>
    if base == 10 && greatestDigitCount < digits.length then
      .error (.tooManyDigits digits.length)
    else .ok (if negative then -n else n)

/-- Reads an exponent of ten. -/
def readExponent? : List Char → Option Int
  | [] => some 0
  | mark :: rest =>
    let (negative, digits) := splitSign rest
    if (mark == 'e' || mark == 'E') && !digits.isEmpty && digits.all Text.isDecimalDigit then
      some (if negative then -Text.digitsValue digits else Text.digitsValue digits)
    else none

/-- Reads a decimal without a sign: digits with a point among them or at either end, and an exponent. -/
def readDecimal? (negative : Bool) (chars : List Char) : Option Double := do
  let (whole, rest) := chars.span Text.isDecimalDigit
  let (fraction, rest) :=
    match rest with
    | '.' :: rest => rest.span Text.isDecimalDigit
    | rest => ([], rest)
  if whole.isEmpty && fraction.isEmpty then none
  else
    let exponent ← readExponent? rest
    return Double.ofDecimal negative (Text.digitsValue (whole ++ fraction))
      (exponent - fraction.length)

/-- Reads a number of double precision: blanks, a sign, a decimal or a word, blanks. -/
def readFloat (chars : List Char) : Except ValueFault Double :=
  let (negative, body) := splitSign (Text.trim Text.isBlank chars)
  let word := String.ofList (body.map Char.toLower)
  if word == "inf" || word == "infinity" then .ok (.infinite negative)
  else if word == "nan" then .ok .nan
  else
    match readDecimal? negative body with
    | some x => .ok x
    | none => .error (.noFloat chars)

end EmberAssist.Data
