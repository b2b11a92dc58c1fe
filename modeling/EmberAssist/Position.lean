/-! Places in a text: line and column, ranges of them, and spans of offsets. -/
namespace EmberAssist

/-- A place given by line and column, both counted from zero. Editors may send any integers. -/
structure Position where
  line : Int
  column : Int
deriving DecidableEq, Repr, Inhabited

namespace Position

/-- Positions are ordered by line, then by column. -/
def le (p q : Position) : Prop := p.line < q.line ∨ p.line = q.line ∧ p.column ≤ q.column

instance : LE Position := ⟨le⟩

instance (p q : Position) : Decidable (p ≤ q) :=
  inferInstanceAs (Decidable (p.line < q.line ∨ p.line = q.line ∧ p.column ≤ q.column))

/-- One position is properly before another. -/
def lt (p q : Position) : Prop := p.line < q.line ∨ p.line = q.line ∧ p.column < q.column

instance : LT Position := ⟨lt⟩

instance (p q : Position) : Decidable (p < q) :=
  inferInstanceAs (Decidable (p.line < q.line ∨ p.line = q.line ∧ p.column < q.column))

end Position

/-- The part of a text between two positions (`SourceRange`). -/
structure Range where
  start : Position
  stop : Position
deriving DecidableEq, Repr, Inhabited

/-- A range contains the positions between its ends, both ends included (`contains_position`). -/
def Range.contains (range : Range) (p : Position) : Bool := range.start ≤ p && p ≤ range.stop

/-- The part of a text between two offsets. -/
structure Span where
  start : Nat
  stop : Nat
deriving DecidableEq, Repr, Inhabited

end EmberAssist
