import EmberAssist.Data.Value

/-! The phrases in a document. Nested mappings group them, and the key of a phrase spells the way to it. -/
namespace EmberAssist.Phrase

open Data (Scalar Value ValueFault)

/-- A key inside the group with a given key. The outermost group has the empty key. -/
def keyIn (group : List Char) (key : Scalar) : List Char :=
  if group.isEmpty then key.shown else group ++ '.' :: key.shown

mutual

/-- The keys and texts of what a group holds, in the order of the document (`flatten_translations`). -/
def flatten (group : List Char) :
    List (Scalar × Value) → Except ValueFault (List (List Char × List Char))
  | [] => return []
  | (key, value) :: entries => do
    if !key.writable then throw .unwritableNumber
    let first ← flattenValue (keyIn group key) value
    return first ++ (← flatten group entries)

/-- The keys and texts of a value with a key. A mapping is a group, which cannot hold itself; nothing
has no text. -/
def flattenValue (key : List Char) : Value → Except ValueFault (List (List Char × List Char))
  | .map entries => flatten key entries
  | .enclosingMap => throw .endlessMapping
  | .scalar .null => return []
  | value => if value.writable then return [(key, value.shown)] else throw .unwritableNumber

end

end EmberAssist.Phrase
