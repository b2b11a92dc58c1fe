/-! Finding and cutting inside texts, which are lists of characters here. -/
namespace EmberAssist.Text

variable {α : Type} [BEq α]

/-- The text after a given beginning, if it begins so. -/
def after? : List α → List α → Option (List α)
  | [], text => some text
  | _ :: _, [] => none
  | a :: pattern, b :: text => if a == b then after? pattern text else none

/-- Whether a text begins with another. -/
def startsWith (text pattern : List α) : Bool := pattern.isPrefixOf text

/-- Whether a text ends with another. -/
def endsWith (text pattern : List α) : Bool := pattern.isSuffixOf text

/-- The index at which a text first occurs in another. -/
def find? (pattern : List α) : List α → Option Nat
  | [] => if pattern.isEmpty then some 0 else none
  | a :: text =>
    if startsWith (a :: text) pattern then some 0 else (find? pattern text).map (· + 1)

/-- Whether a text occurs in another. -/
def occursIn (pattern text : List α) : Bool := (find? pattern text).isSome

/-- The pieces between the occurrences of a character: one more than there are occurrences. -/
def splitOn (separator : α) : List α → List (List α)
  | [] => [[]]
  | a :: text =>
    if a == separator then [] :: splitOn separator text
    else
      match splitOn separator text with
      | [] => [[a]]
      | piece :: pieces => (a :: piece) :: pieces

theorem splitOn_ne_nil (separator : Char) (text : List Char) : splitOn separator text ≠ [] := by
  cases text with
  | nil => simp [splitOn]
  | cons c text =>
    rw [splitOn]
    split
    · simp
    · split <;> simp

/-- No piece holds the character. -/
theorem notMem_of_mem_splitOn {separator : Char} {text piece : List Char}
    (member : piece ∈ splitOn separator text) : separator ∉ piece := by
  induction text generalizing piece with
  | nil => simp_all [splitOn]
  | cons c text ih =>
    obtain ⟨first, pieces, cut⟩ := List.exists_cons_of_ne_nil (splitOn_ne_nil separator text)
    rw [splitOn, cut] at member
    rw [cut] at ih
    split at member
    · rcases List.mem_cons.mp member with rfl | member
      · simp
      · exact ih member
    · rename_i other
      rcases List.mem_cons.mp member with rfl | member
      · simp only [beq_iff_eq] at other
        simpa [Ne.symm other] using ih List.mem_cons_self
      · exact ih (List.mem_cons_of_mem _ member)

/-- The pieces put together again with a separator between them. -/
def join (separator : List α) : List (List α) → List α
  | [] => []
  | [piece] => piece
  | piece :: pieces => piece ++ separator ++ join separator pieces

/-- Replaces the occurrences of a non-empty text from left to right, the next `skip` characters being
part of the occurrence found last. -/
def replaceAfter (pattern replacement : List α) : Nat → List α → List α
  | _, [] => []
  | skip + 1, _ :: text => replaceAfter pattern replacement skip text
  | 0, a :: text =>
    if startsWith (a :: text) pattern then
      replacement ++ replaceAfter pattern replacement (pattern.length - 1) text
    else a :: replaceAfter pattern replacement 0 text

/-- Replaces every occurrence of a text by another, from left to right and without overlap. An empty
text occurs before every character and at the end. -/
def replace (pattern replacement text : List α) : List α :=
  if pattern.isEmpty then replacement ++ text.flatMap fun a => a :: replacement
  else replaceAfter pattern replacement 0 text

end EmberAssist.Text
