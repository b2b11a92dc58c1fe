import Mathlib.Order.Lattice
import Mathlib.Order.Monotone.Basic
import EmberAssist.Text.Lines

/-! Positions are ordered as the offsets they stand for: a later offset of the same text never gets
an earlier position, nor the same one. -/
namespace EmberAssist

namespace Position

theorem le_iff {p q : Position} :
    p ≤ q ↔ p.line < q.line ∨ p.line = q.line ∧ p.column ≤ q.column := Iff.rfl

theorem lt_iff {p q : Position} :
    p < q ↔ p.line < q.line ∨ p.line = q.line ∧ p.column < q.column := Iff.rfl

instance : LinearOrder Position where
  le_refl p := Or.inr ⟨rfl, Int.le_refl _⟩
  le_trans p q r first second := by
    rw [le_iff] at *
    omega
  le_antisymm p q first second := by
    rw [le_iff] at first second
    cases p
    cases q
    simp only [Position.mk.injEq] at *
    omega
  le_total p q := by
    rw [le_iff, le_iff]
    omega
  lt_iff_le_not_ge p q := by
    rw [lt_iff, le_iff, le_iff]
    omega
  toDecidableLE := inferInstance
  toDecidableEq := inferInstance
  toDecidableLT := inferInstance

end Position

theorem Range.contains_iff {range : Range} {p : Position} :
    range.contains p = true ↔ range.start ≤ p ∧ p ≤ range.stop := by
  simp [Range.contains]

namespace Text

/-- The beginnings of the lines that an offset has reached. -/
def begun (chars : List Char) (offset : Nat) : List Nat :=
  (lineStarts chars).takeWhile (· ≤ offset)

private theorem begun_ne_nil (chars : List Char) (offset : Nat) : begun chars offset ≠ [] := by
  simp [begun, lineStarts]

private theorem begun_prefix (chars : List Char) {offset later : Nat} (order : offset ≤ later) :
    begun chars offset <+: begun chars later := by
  unfold begun
  induction lineStarts chars with
  | nil => simp
  | cons start rest ih =>
    by_cases reached : start ≤ offset
    · have : start ≤ later := reached.trans order
      simpa [List.takeWhile_cons, reached, this] using ih
    · simp [List.takeWhile_cons, reached]

private theorem lineStart_lineOf (chars : List Char) (offset : Nat) :
    lineStart (lineStarts chars) (lineOf (lineStarts chars) offset) =
      (begun chars offset).getLastD 0 := by
  obtain ⟨rest, cut⟩ : begun chars offset <+: lineStarts chars := List.takeWhile_prefix _
  have filled := List.length_pos_iff.mpr (begun_ne_nil chars offset)
  have line : lineOf (lineStarts chars) offset = (begun chars offset).length - 1 := rfl
  rw [line, lineStart, List.getD_eq_getElem?_getD, List.getLastD_eq_getLast?,
    List.getLast?_eq_getElem?, ← cut, List.getElem?_append_left (by omega)]

/-- The position of an offset is told by the lines that have begun there. -/
theorem positionOf_lineStarts (chars : List Char) (offset : Nat) :
    positionOf (lineStarts chars) offset = ⟨((begun chars offset).length - 1 : Nat),
      (offset - (begun chars offset).getLastD 0 : Nat)⟩ := by
  have line : lineOf (lineStarts chars) offset = (begun chars offset).length - 1 := rfl
  simp only [positionOf]
  rw [lineStart_lineOf, line]

private theorem last_begun_le (chars : List Char) (offset : Nat) :
    (begun chars offset).getLastD 0 ≤ offset := by
  have all : (begun chars offset).all (· ≤ offset) = true := List.all_takeWhile
  rw [List.getLastD_eq_getLast?, List.getLast?_eq_some_getLast (begun_ne_nil chars offset)]
  simpa using List.all_eq_true.mp all _ (List.getLast_mem (begun_ne_nil chars offset))

/-- The line of an offset is one of the lines of the text. -/
theorem lineOf_lt (chars : List Char) (offset : Nat) :
    lineOf (lineStarts chars) offset < (lineStarts chars).length := by
  have kept : begun chars offset <+: lineStarts chars := List.takeWhile_prefix _
  have filled := List.length_pos_iff.mpr (begun_ne_nil chars offset)
  have line : lineOf (lineStarts chars) offset = (begun chars offset).length - 1 := rfl
  have := kept.length_le
  omega

/-- An offset is not before the line that it is on. -/
theorem lineStart_lineOf_le (chars : List Char) (offset : Nat) :
    lineStart (lineStarts chars) (lineOf (lineStarts chars) offset) ≤ offset := by
  rw [lineStart_lineOf]
  exact last_begun_le chars offset

/-- Offsets are told apart by their positions, and in order. -/
theorem positionOf_strictMono (chars : List Char) : StrictMono (positionOf (lineStarts chars)) := by
  intro offset later order
  rw [positionOf_lineStarts, positionOf_lineStarts, Position.lt_iff]
  have shorter := begun_prefix chars order.le
  have filled := List.length_pos_iff.mpr (begun_ne_nil chars offset)
  have first := last_begun_le chars offset
  rcases shorter.length_le.lt_or_eq with less | same
  · left
    simp only
    omega
  · right
    have lines := shorter.eq_of_length same
    rw [← lines]
    simp only [true_and]
    omega

theorem rangeOf_injective (chars : List Char) :
    Function.Injective (rangeOf (lineStarts chars)) := by
  intro span other same
  obtain ⟨start, stop⟩ := Range.mk.inj same
  have distinct := (positionOf_strictMono chars).injective
  cases span
  cases other
  simp only [Span.mk.injEq]
  exact ⟨distinct start, distinct stop⟩

end Text

end EmberAssist
