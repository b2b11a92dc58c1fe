/-! Items and pieces of a list by index, a negative index counting from the end. -/
namespace EmberAssist.Text

variable {α : Type}

/-- The item at an index, if there is one. -/
def item? (items : List α) (index : Int) : Option α :=
  if 0 ≤ index then items[index.toNat]?
  else if 0 ≤ index + items.length then items[(index + items.length).toNat]?
  else none

/-- The place between items that an index means: one beyond either end means that end. -/
def cutPoint (length : Nat) (index : Int) : Nat :=
  let index := if index < 0 then index + length else index
  min index.toNat length

/-- The items before an index. -/
def takeTo (items : List α) (stop : Int) : List α := items.take (cutPoint items.length stop)

/-- The items from an index on. -/
def dropTo (items : List α) (start : Int) : List α := items.drop (cutPoint items.length start)

/-- The items from one index up to another, none if the second is before the first. -/
def slice (items : List α) (start stop : Int) : List α :=
  (takeTo items stop).drop (cutPoint items.length start)

end EmberAssist.Text
