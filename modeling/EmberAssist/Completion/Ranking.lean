import EmberAssist.Text.Lowercase

/-! Which names fit what has been typed, and how well. A name fits if it has all the characters typed in
their order, whatever their case. -/
namespace EmberAssist.Completion

/-- The lengths of the longest common subsequences of a text `b :: after` and all ends of a pattern,
from the whole pattern to nothing, when those of the pattern and `after` are known. -/
def commonStep (b : Char) : List Char → List Nat → List Nat
  | a :: pattern, here :: shorter =>
    let known := commonStep b pattern shorter
    (if a == b then 1 + shorter.headD 0 else max here (known.headD 0)) :: known
  | _, _ => [0]

/-- The lengths of the longest common subsequences of a text and all ends of a pattern, from the whole
pattern to nothing. -/
def commonLengths (pattern : List Char) : List Char → List Nat
  | [] => List.replicate (pattern.length + 1) 0
  | b :: text => commonStep b pattern (commonLengths pattern text)

/-- The length of the longest common subsequence of two texts. -/
def commonLength (pattern text : List Char) : Nat := (commonLengths pattern text).headD 0

/-- How many characters have to be inserted or deleted to turn one text into another. -/
def distance (a b : List Char) : Nat := a.length + b.length - 2 * commonLength a b

/-- How much of two texts agrees, as a share of all their characters. -/
structure Similarity where
  agreeing : Nat
  total : Nat
deriving DecidableEq, Repr

/-- How much of two texts agrees: all but the characters that have to be inserted or deleted (`ratio`). -/
def similarity (a b : List Char) : Similarity :=
  let total := a.length + b.length
  ⟨total - distance a b, total⟩

/-- One share is at least as large as another. -/
def Similarity.atLeast (s t : Similarity) : Bool := t.agreeing * s.total ≤ s.agreeing * t.total

/-- The items whose keys fit a query, the most similar first and otherwise in their order
(`fuzzy_filter`). An empty query fits everything. -/
def rank {α : Type} (key : α → String) (query : String) (items : List α) : List α :=
  if query.isEmpty then items
  else
    let needle := Text.lower query.toList
    let lowered := fun item => Text.lower (key item).toList
    (items.filter fun item => needle.isSublist (lowered item)).mergeSort fun a b =>
      (similarity needle (lowered a)).atLeast (similarity needle (lowered b))

end EmberAssist.Completion
