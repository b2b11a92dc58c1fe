import EmberAssist.Data.Fault
import EmberAssist.Number.Shortest

/-! Values without parts: what a document can hold in one place, and what can be a key in it. -/
namespace EmberAssist.Data

/-- A value without parts. -/
inductive Scalar where
  | null
  | bool (b : Bool)
  | int (n : Int)
  | float (x : Double)
  | text (chars : List Char)
  | bytes (bytes : List UInt8)
  | day (day : Day)
  | moment (moment : Moment)
deriving DecidableEq, Repr, Inhabited

/-- A byte inside quotes. -/
def quoteByte (quote : Char) (byte : UInt8) : List Char :=
  let c := Char.ofNat byte.toNat
  if c == quote || c == '\\' then ['\\', c]
  else if c == '\n' then ['\\', 'n']
  else if c == '\r' then ['\\', 'r']
  else if c == '\t' then ['\\', 't']
  else if 0x20 ≤ byte.toNat && byte.toNat < 0x7F then [c]
  else '\\' :: 'x' :: Text.hexText 2 byte.toNat

/-- Bytes in single quotes, or in double ones if there are single quotes and no double ones. -/
def quotedBytes (bytes : List UInt8) : List Char :=
  let quote := if bytes.contains 39 && !bytes.contains 34 then '"' else '\''
  'b' :: quote :: bytes.flatMap (quoteByte quote) ++ [quote]

namespace Scalar

/-- The text of a value. -/
def shown : Scalar → List Char
  | null => "None".toList
  | bool b => (if b then "True" else "False").toList
  | int n => (toString n).toList
  | float x => x.plainText.toList
  | text chars => chars
  | bytes b => quotedBytes b
  | day d => d.text.toList
  | moment m => m.text.toList

/-- The text of a value inside another. -/
def innerText : Scalar → List Char
  | text chars => Text.quoted chars
  | day d => d.innerText.toList
  | moment m => m.innerText.toList
  | other => other.shown

/-- Whether a value can be written. A whole number with too many digits cannot. -/
def writable : Scalar → Bool
  | int n => n.natAbs < Nat.pow 10 greatestDigitCount
  | _ => true

/-- The whole number that a value is equal to, truth values counting as one and zero. -/
def toInt? : Scalar → Option Int
  | bool b => some (if b then 1 else 0)
  | int n => some n
  | float x => x.toInt?
  | _ => none

/-- Whether two values are the same key. Numbers of different sorts are when they are equal. -/
def sameKey : Scalar → Scalar → Bool
  | float x, float y => x == y || x.equal y
  | moment a, moment b => a.same b
  | a, b =>
    match a.toInt?, b.toInt? with
    | some m, some n => m == n
    | _, _ => a == b

end Scalar

end EmberAssist.Data
