import EmberAssist.Data.Scalar
import EmberAssist.Text.Search

/-! Values of data documents, and their texts. -/
namespace EmberAssist.Data

/-- A value. A mapping keeps the order in which its keys came first. A document can hold a collection
inside itself; the value stops there. -/
inductive Value where
  | scalar (s : Scalar)
  | list (items : List Value)
  | pair (first second : Value)
  | set (items : List Scalar)
  | map (entries : List (Scalar × Value))
  | enclosingList
  | enclosingMap
deriving Repr, Inhabited

/-- Values in a row between brackets. -/
def bracketed (opening closing : List Char) (items : List (List Char)) : List Char :=
  opening ++ Text.join [',', ' '] items ++ closing

namespace Value

mutual

/-- The text of a value inside another. -/
def innerText : Value → List Char
  | scalar s => s.innerText
  | list items => bracketed ['['] [']'] (innerTexts items)
  | pair first second => bracketed ['('] [')'] [innerText first, innerText second]
  | set [] => "set()".toList
  | set items => bracketed ['\x7b'] ['\x7d'] (items.map Scalar.innerText)
  | map entries => bracketed ['\x7b'] ['\x7d'] (entryTexts entries)
  | enclosingList => "[...]".toList
  | enclosingMap => ['\x7b', '.', '.', '.', '\x7d']

/-- The texts of values inside another. -/
def innerTexts : List Value → List (List Char)
  | [] => []
  | item :: items => innerText item :: innerTexts items

/-- The texts of the entries of a mapping. -/
def entryTexts : List (Scalar × Value) → List (List Char)
  | [] => []
  | (key, value) :: entries => (key.innerText ++ ':' :: ' ' :: innerText value) :: entryTexts entries

end

/-- The text of a value. -/
def shown : Value → List Char
  | scalar s => s.shown
  | other => other.innerText

mutual

/-- Whether a value can be written with all that is in it. -/
def writable : Value → Bool
  | scalar s => s.writable
  | list items => areWritable items
  | pair first second => writable first && writable second
  | set items => items.all Scalar.writable
  | map entries => areEntriesWritable entries
  | enclosingList | enclosingMap => true

/-- Whether values can be written. -/
def areWritable : List Value → Bool
  | [] => true
  | item :: items => writable item && areWritable items

/-- Whether the entries of a mapping can be written. -/
def areEntriesWritable : List (Scalar × Value) → Bool
  | [] => true
  | (key, value) :: entries => key.writable && writable value && areEntriesWritable entries

end

/-- Sets the value of a key: in the place of the same key if there is one, and at the end
otherwise. -/
def setEntry (key : Scalar) (value : Value) : List (Scalar × Value) → List (Scalar × Value)
  | [] => [(key, value)]
  | (other, old) :: entries =>
    if other.sameKey key then (other, value) :: entries
    else (other, old) :: setEntry key value entries

/-- The mapping with given entries, of which later ones count. -/
def ofEntries (entries : List (Scalar × Value)) : Value :=
  map (entries.foldl (fun kept (key, value) => setEntry key value kept) [])

end Value

end EmberAssist.Data
