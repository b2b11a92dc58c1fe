import EmberAssist.Data.Value

/-! Values written as JSON, every item of a collection on a line of its own. -/
namespace EmberAssist.Data

/-- A character inside quotes. Only what must be escaped is. -/
def jsonChar (c : Char) : List Char :=
  match c with
  | '"' => ['\\', '"']
  | '\\' => ['\\', '\\']
  | '\n' => ['\\', 'n']
  | '\r' => ['\\', 'r']
  | '\t' => ['\\', 't']
  | '\x08' => ['\\', 'b']
  | '\x0c' => ['\\', 'f']
  | c => if c.toNat < 0x20 then '\\' :: 'u' :: Text.hexText 4 c.toNat else [c]

/-- A text in quotes. -/
def jsonQuoted (chars : List Char) : List Char := '"' :: chars.flatMap jsonChar ++ ['"']

/-- A value without parts. What JSON has no form for is written as a text. -/
def Scalar.jsonText : Scalar → List Char
  | null => "null".toList
  | bool b => (if b then "true" else "false").toList
  | int n => (toString n).toList
  | text chars => jsonQuoted chars
  | other => jsonQuoted other.shown

/-- A new line at a depth of nesting. -/
def jsonLine (depth : Nat) : List Char := '\n' :: List.replicate (2 * depth) ' '

/-- The items of a collection at a depth of nesting, between its brackets. -/
def jsonItems (opening closing : Char) (depth : Nat) (items : List (List Char)) : List Char :=
  if items.isEmpty then [opening, closing]
  else
    opening :: Text.join [','] (items.map (jsonLine (depth + 1) ++ ·)) ++ jsonLine depth ++ [closing]

namespace Value

mutual

/-- A value at a depth of nesting. -/
def jsonText (depth : Nat) : Value → List Char
  | scalar s => s.jsonText
  | list items => jsonItems '[' ']' depth (jsonTexts (depth + 1) items)
  | pair first second =>
    jsonItems '[' ']' depth [jsonText (depth + 1) first, jsonText (depth + 1) second]
  | set items => jsonItems '[' ']' depth (items.map Scalar.jsonText)
  | map entries => jsonItems '\x7b' '\x7d' depth (jsonEntries (depth + 1) entries)
  | enclosingList => "[]".toList
  | enclosingMap => ['\x7b', '\x7d']

/-- Values at a depth of nesting. -/
def jsonTexts (depth : Nat) : List Value → List (List Char)
  | [] => []
  | item :: items => jsonText depth item :: jsonTexts depth items

/-- The entries of a mapping at a depth of nesting. -/
def jsonEntries (depth : Nat) : List (Scalar × Value) → List (List Char)
  | [] => []
  | (key, value) :: entries =>
    (jsonQuoted key.shown ++ ':' :: ' ' :: jsonText depth value) :: jsonEntries depth entries

end

end Value

end EmberAssist.Data
