/-! Sets of characters given by ranges of code points. -/
namespace EmberAssist.Text

/-- A set of characters as ranges of code points, both ends included. -/
structure RangeTable where
  ranges : Array (Nat × Nat)
deriving Repr

/-- Whether a character lies in one of the ranges. -/
def RangeTable.contains (table : RangeTable) (c : Char) : Bool :=
  table.ranges.any fun (first, last) => first ≤ c.toNat && c.toNat ≤ last

end EmberAssist.Text
