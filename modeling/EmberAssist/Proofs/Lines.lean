import Mathlib.Data.List.TakeWhile
import EmberAssist.Proofs.Position

/-! The lines of a text, each with what is written on it and what ends it. The table of the offsets at
which lines begin is read off them. -/
namespace EmberAssist.Text

/-- What can end a line. Only the last line of a text ends in nothing. -/
def lineEndings : List (List Char) := [[], ['\n'], ['\r'], ['\r', '\n']]

theorem nothing_ends : [] ∈ lineEndings := by decide

theorem both_end : ['\r', '\n'] ∈ lineEndings := by decide

theorem single_ends {c : Char} (ends : c = '\r' ∨ c = '\n') : [c] ∈ lineEndings := by
  rcases ends with rfl | rfl <;> decide

/-- A line: what is written on it and what ends it. -/
structure Line where
  content : List Char
  ending : List Char
  plain : ∀ c ∈ content, ¬ (c = '\r' ∨ c = '\n')
  ends : ending ∈ lineEndings

namespace Line

/-- All characters of a line. -/
def chars (line : Line) : List Char := line.content ++ line.ending

/-- A line on which nothing is written. -/
def blank (ending : List Char) (ends : ending ∈ lineEndings) : Line := ⟨[], ending, by simp, ends⟩

/-- A line with one more character at its beginning. -/
def cons (c : Char) (inside : ¬ (c = '\r' ∨ c = '\n')) (line : Line) : Line where
  content := c :: line.content
  ending := line.ending
  plain := by
    intro d member
    rcases List.mem_cons.mp member with rfl | member
    · exact inside
    · exact line.plain d member
  ends := line.ends

@[simp] theorem chars_blank (ending : List Char) (ends : ending ∈ lineEndings) :
    (blank ending ends).chars = ending := rfl

@[simp] theorem chars_cons (c : Char) (inside : ¬ (c = '\r' ∨ c = '\n')) (line : Line) :
    (line.cons c inside).chars = c :: line.chars := rfl

theorem length_chars (line : Line) :
    line.chars.length = line.content.length + line.ending.length := List.length_append

theorem of_mem_ending {line : Line} {c : Char} (member : c ∈ line.ending) : c = '\r' ∨ c = '\n' := by
  have ends := line.ends
  simp only [lineEndings, List.mem_cons, List.not_mem_nil, or_false] at ends
  rcases ends with ends | ends | ends | ends <;> simp_all

end Line

/-- Writes a character at the beginning of the first line. -/
def writeFirst (c : Char) (inside : ¬ (c = '\r' ∨ c = '\n')) : List Line → List Line
  | [] => [(Line.blank [] nothing_ends).cons c inside]
  | line :: others => line.cons c inside :: others

/-- The lines of a text. -/
def lines : List Char → List Line
  | [] => [.blank [] nothing_ends]
  | '\r' :: '\n' :: rest => .blank ['\r', '\n'] both_end :: lines rest
  | c :: rest =>
    if ends : c = '\r' ∨ c = '\n' then .blank [c] (single_ends ends) :: lines rest
    else writeFirst c ends (lines rest)

variable {chars : List Char} {number offset : Nat} {line : Line}

/-- Every text has a first line. -/
theorem exists_lines (chars : List Char) : ∃ first others, lines chars = first :: others := by
  cases chars using lines.fun_cases with
  | case1 => exact ⟨_, _, lines.eq_1⟩
  | case2 rest => exact ⟨_, _, lines.eq_2 rest⟩
  | case3 c rest single ends =>
    rw [lines.eq_3 _ _ single, dif_pos ends]
    exact ⟨_, _, rfl⟩
  | case4 c rest single inside =>
    rw [lines.eq_3 _ _ single, dif_neg inside]
    cases lines rest with
    | nil => exact ⟨_, _, rfl⟩
    | cons line others => exact ⟨_, _, rfl⟩

/-- Two characters that end a line together are a line on which nothing is written. -/
theorem lines_of_both (rest : List Char) : ∃ first : Line, first.chars = ['\r', '\n'] ∧
    first.ending ≠ [] ∧ lines ('\r' :: '\n' :: rest) = first :: lines rest :=
  ⟨_, rfl, List.cons_ne_nil _ _, lines.eq_2 rest⟩

/-- A character that ends a line by itself is a line on which nothing is written. -/
theorem lines_of_ends {c : Char} {rest : List Char}
    (single : ∀ later, c = '\r' → rest = '\n' :: later → False) (ends : c = '\r' ∨ c = '\n') :
    ∃ first : Line, first.chars = [c] ∧ first.ending ≠ [] ∧
      lines (c :: rest) = first :: lines rest := by
  rw [lines.eq_3 _ _ single, dif_pos ends]
  exact ⟨_, rfl, List.cons_ne_nil _ _, rfl⟩

/-- Any other character belongs to the line that goes on behind it. -/
theorem lines_of_inside {c : Char} {rest : List Char} {first : Line} {others : List Line}
    (inside : ¬ (c = '\r' ∨ c = '\n')) (cut : lines rest = first :: others) :
    lines (c :: rest) = first.cons c inside :: others := by
  rw [lines.eq_3 _ _ (fun _ same _ => inside (.inl same)), dif_neg inside, cut]
  rfl

/-- The lines of a text make it up. -/
theorem flatMap_lines (chars : List Char) : (lines chars).flatMap Line.chars = chars := by
  induction chars using lines.induct with
  | case1 => rfl
  | case2 rest ih =>
    rw [lines.eq_2, List.flatMap_cons, ih]
    rfl
  | case3 c rest single ends ih =>
    obtain ⟨first, whole, -, cut⟩ := lines_of_ends single ends
    rw [cut, List.flatMap_cons, whole, ih]
    rfl
  | case4 c rest single inside ih =>
    obtain ⟨first, others, cut⟩ := exists_lines rest
    rw [cut, List.flatMap_cons] at ih
    rw [lines_of_inside inside cut, List.flatMap_cons, Line.chars_cons, List.cons_append, ih]

example : (lines "a\r\nb\r\rc".toList).map Line.chars =
    [['a', '\r', '\n'], ['b', '\r'], ['\r'], ['c']] := by decide

private theorem exists_last (chars : List Char) : ∃ front last,
    lines chars = front ++ [last] ∧ last.ending = [] ∧ ∀ line ∈ front, line.ending ≠ [] := by
  induction chars using lines.induct with
  | case1 => exact ⟨[], _, rfl, rfl, by simp⟩
  | case2 rest ih =>
    obtain ⟨front, last, cut, ends, more⟩ := ih
    exact ⟨_ :: front, last, congrArg _ cut, ends, List.forall_mem_cons.mpr ⟨by simp [Line.blank], more⟩⟩
  | case3 c rest single ends ih =>
    obtain ⟨front, last, behind, final, more⟩ := ih
    obtain ⟨first, -, filled, cut⟩ := lines_of_ends single ends
    exact ⟨first :: front, last, by rw [cut, behind]; rfl, final,
      List.forall_mem_cons.mpr ⟨filled, more⟩⟩
  | case4 c rest single inside ih =>
    obtain ⟨front, last, cut, ends, more⟩ := ih
    cases front with
    | nil => exact ⟨[], last.cons c inside, lines_of_inside inside cut, ends, by simp⟩
    | cons first front =>
      rw [List.forall_mem_cons] at more
      exact ⟨first.cons c inside :: front, last, lines_of_inside inside cut, ends,
        List.forall_mem_cons.mpr more⟩

/-- The last line of a text ends in nothing, and no other one does. -/
theorem ending_eq_nil_iff (found : (lines chars)[number]? = some line) :
    line.ending = [] ↔ number + 1 = (lines chars).length := by
  obtain ⟨front, last, cut, ends, more⟩ := exists_last chars
  rw [cut] at found
  rw [cut, List.length_append, List.length_singleton, Nat.add_right_cancel_iff]
  by_cases inner : number < front.length
  · rw [List.getElem?_append_left inner] at found
    have filled := more line (List.mem_of_getElem? found)
    exact iff_of_false filled inner.ne
  · rw [List.getElem?_append_right (by omega), List.getElem?_singleton] at found
    split at found
    · cases found
      exact iff_of_true ends (by omega)
    · cases found

/-! ## Where lines begin -/

/-- The offsets at which some lines begin, the first of them at a given one. -/
def beginnings : Nat → List Line → List Nat
  | _, [] => []
  | offset, line :: others => offset :: beginnings (offset + line.chars.length) others

/-- The table of line beginnings is read off the lines. -/
theorem beginnings_lines (offset : Nat) (chars : List Char) :
    beginnings offset (lines chars) = offset :: lineStartsFrom offset chars := by
  induction chars using lines.induct generalizing offset with
  | case1 => rfl
  | case2 rest ih =>
    rw [lines.eq_2, beginnings, ih]
    rfl
  | case3 c rest single ends ih =>
    obtain ⟨first, whole, -, cut⟩ := lines_of_ends single ends
    rw [cut, beginnings, whole, ih, lineStartsFrom.eq_3 _ _ _ single, if_pos ends]
    rfl
  | case4 c rest single inside ih =>
    obtain ⟨first, others, cut⟩ := exists_lines rest
    have later := ih (offset + 1)
    rw [cut, beginnings, List.cons.injEq] at later
    rw [lines_of_inside inside cut, beginnings, Line.chars_cons, List.length_cons,
      lineStartsFrom.eq_3 _ _ _ single, if_neg inside, ← later.2]
    congr 2
    omega

/-- The offset at which a line of a text begins, or its length if it has no such line. -/
def lineBegin (chars : List Char) (number : Nat) : Nat :=
  (((lines chars).take number).flatMap Line.chars).length

theorem getElem?_beginnings (offset : Nat) (cut : List Line) (number : Nat) :
    (beginnings offset cut)[number]? =
      if number < cut.length then some (offset + ((cut.take number).flatMap Line.chars).length)
      else none := by
  induction cut generalizing offset number with
  | nil => simp [beginnings]
  | cons line others ih =>
    cases number with
    | zero => simp [beginnings]
    | succ number =>
      simp only [beginnings, List.getElem?_cons_succ, ih, List.length_cons, Nat.add_lt_add_iff_right,
        List.take_succ_cons, List.flatMap_cons, List.length_append]
      simp only [Nat.add_assoc]

theorem getElem?_lineStarts (chars : List Char) (number : Nat) : (lineStarts chars)[number]? =
    if number < (lines chars).length then some (lineBegin chars number) else none := by
  rw [lineStarts, ← beginnings_lines, getElem?_beginnings, Nat.zero_add]
  rfl

theorem length_lineStarts (chars : List Char) : (lineStarts chars).length = (lines chars).length := by
  have table {offset : Nat} {cut : List Line} : (beginnings offset cut).length = cut.length := by
    induction cut generalizing offset with
    | nil => rfl
    | cons line others ih => simp [beginnings, ih]
  rw [lineStarts, ← beginnings_lines, table]

/-- The characters before a line are those of the lines before it. -/
theorem take_lineBegin (chars : List Char) (number : Nat) :
    chars.take (lineBegin chars number) = ((lines chars).take number).flatMap Line.chars := by
  have whole := flatMap_lines chars
  rw [← List.take_append_drop number (lines chars), List.flatMap_append] at whole
  exact (List.prefix_iff_eq_take.mp ⟨_, whole⟩).symm

theorem drop_lineBegin (chars : List Char) (number : Nat) :
    chars.drop (lineBegin chars number) = ((lines chars).drop number).flatMap Line.chars := by
  have whole := flatMap_lines chars
  rw [← List.take_append_drop number (lines chars), List.flatMap_append] at whole
  have cut := List.take_append_drop (lineBegin chars number) chars
  rw [take_lineBegin] at cut
  exact List.append_cancel_left (cut.trans whole.symm)

theorem lineBegin_le (chars : List Char) (number : Nat) : lineBegin chars number ≤ chars.length := by
  have whole := congrArg List.length (take_lineBegin chars number)
  rw [List.length_take] at whole
  unfold lineBegin
  omega

theorem lineBegin_length (chars : List Char) : lineBegin chars (lines chars).length = chars.length := by
  rw [lineBegin, List.take_length, flatMap_lines]

theorem lineBegin_succ (found : (lines chars)[number]? = some line) :
    lineBegin chars (number + 1) = lineBegin chars number + line.chars.length := by
  rw [lineBegin, List.take_add_one, found, List.flatMap_append, List.length_append]
  simp [lineBegin]

/-- What is written on a line is before the next one. -/
theorem content_le_lineBegin (found : (lines chars)[number]? = some line) :
    lineBegin chars number + line.content.length ≤ lineBegin chars (number + 1) := by
  rw [lineBegin_succ found, line.length_chars]
  omega

theorem lineBegin_mono (chars : List Char) : Monotone (lineBegin chars) := by
  apply monotone_nat_of_le_succ
  intro number
  cases found : (lines chars)[number]? with
  | some line =>
    rw [lineBegin_succ found]
    omega
  | none =>
    rw [List.getElem?_eq_none_iff] at found
    rw [lineBegin, lineBegin, List.take_of_length_le found, List.take_of_length_le (by omega)]

/-- The characters of a line stand between its beginning and that of the next one. -/
theorem chars_of_line (found : (lines chars)[number]? = some line) :
    (chars.take (lineBegin chars (number + 1))).drop (lineBegin chars number) = line.chars := by
  rw [take_lineBegin, List.take_add_one, found, List.flatMap_append]
  have before : lineBegin chars number = (((lines chars).take number).flatMap Line.chars).length := rfl
  rw [before, List.drop_left]
  simp

/-- What stands between two places of a line is a part of the line. -/
theorem part_of_line {start stop : Nat} (found : (lines chars)[number]? = some line)
    (first : lineBegin chars number ≤ stop) (last : stop ≤ lineBegin chars (number + 1))
    (begins : lineBegin chars number ≤ start) :
    (line.chars.take (stop - lineBegin chars number)).drop (start - lineBegin chars number) =
      (chars.take stop).drop start := by
  rw [← chars_of_line found, List.take_drop, List.take_take, List.drop_drop,
    Nat.add_sub_cancel' first, Nat.min_eq_left last, Nat.add_sub_cancel' begins]

theorem content_of_line (found : (lines chars)[number]? = some line) :
    (chars.take (lineBegin chars number + line.content.length)).drop (lineBegin chars number) =
      line.content := by
  rw [← part_of_line found (Nat.le_add_right _ _) (content_le_lineBegin found) (le_refl _),
    Nat.add_sub_cancel_left,
    Nat.sub_self, List.drop_zero, Line.chars, List.take_left]

theorem getElem?_of_line {index : Nat} (found : (lines chars)[number]? = some line)
    (within : index < line.chars.length) :
    chars[lineBegin chars number + index]? = line.chars[index]? := by
  have next := lineBegin_succ found
  rw [← chars_of_line found, List.getElem?_drop, List.getElem?_take_of_lt (by omega)]

/-! ## The line of an offset -/

/-- An offset is on a line: before what ends the line, or between the two characters that do. -/
structure OnLine (chars : List Char) (offset number : Nat) (line : Line) : Prop where
  found : (lines chars)[number]? = some line
  first : lineBegin chars number ≤ offset
  last : offset ≤ lineBegin chars number + line.content.length ∨
    line.ending = ['\r', '\n'] ∧ offset = lineBegin chars number + line.content.length + 1

namespace OnLine

variable (onLine : OnLine chars offset number line)
include onLine

theorem lt : number < (lines chars).length := (List.getElem?_eq_some_iff.mp onLine.found).1

theorem le_lineBegin : offset ≤ lineBegin chars (number + 1) := by
  rw [lineBegin_succ onLine.found, line.length_chars]
  rcases onLine.last with written | ⟨ending, rfl⟩
  · omega
  · simp only [ending, List.length_cons]
    omega

theorem le_length : offset ≤ chars.length := onLine.le_lineBegin.trans (lineBegin_le chars _)

/-- The next line begins behind the offsets of a line. -/
theorem lt_lineBegin (more : number + 1 < (lines chars).length) :
    offset < lineBegin chars (number + 1) := by
  have ended : line.ending ≠ [] := fun ends => more.ne ((ending_eq_nil_iff onLine.found).mp ends)
  have filled := List.length_pos_iff.mpr ended
  rw [lineBegin_succ onLine.found, line.length_chars]
  rcases onLine.last with written | ⟨ending, rfl⟩
  · omega
  · simp only [ending, List.length_cons]
    omega

/-- A character that is no line end is written on its line. -/
theorem lt_content {c : Char} (here : chars[offset]? = some c) (inside : ¬ (c = '\r' ∨ c = '\n')) :
    offset < lineBegin chars number + line.content.length := by
  by_contra ended
  apply inside
  have within := (List.getElem?_eq_some_iff.mp here).1
  have next := lineBegin_succ onLine.found
  have before : offset < lineBegin chars (number + 1) := by
    by_cases last : number + 1 = (lines chars).length
    · rwa [last, lineBegin_length]
    · exact onLine.lt_lineBegin (by have := onLine.lt; omega)
  have first := onLine.first
  obtain ⟨index, rfl⟩ := Nat.exists_eq_add_of_le first
  rw [getElem?_of_line onLine.found (by omega), Line.chars,
    List.getElem?_append_right (by omega)] at here
  exact Line.of_mem_ending (List.mem_of_getElem? here)

end OnLine

private theorem eq_false_of_next {α : Type} {p : α → Bool} {items : List α} {item : α}
    (next : items[(items.takeWhile p).length]? = some item) : p item = false := by
  induction items with
  | nil => cases next
  | cons first rest ih =>
    by_cases kept : p first = true
    · rw [List.takeWhile_cons_of_pos kept, List.length_cons, List.getElem?_cons_succ] at next
      exact ih next
    · rw [List.takeWhile_cons_of_neg kept] at next
      cases next
      simpa using kept

/-- A line behind the one that is looked up for an offset begins behind the offset. -/
private theorem lt_of_next (chars : List Char) (offset : Nat)
    (more : lineOf (lineStarts chars) offset + 1 < (lines chars).length) :
    offset < lineBegin chars (lineOf (lineStarts chars) offset + 1) := by
  have count : lineOf (lineStarts chars) offset + 1 =
      ((lineStarts chars).takeWhile (· ≤ offset)).length := Nat.sub_add_cancel (by simp [lineStarts])
  have table := getElem?_lineStarts chars (lineOf (lineStarts chars) offset + 1)
  rw [if_pos more, count] at table
  simpa [count] using eq_false_of_next table

/-- Every offset of a text is on the line that is looked up for it. -/
theorem exists_onLine (within : offset ≤ chars.length) :
    ∃ line, OnLine chars offset (lineOf (lineStarts chars) offset) line := by
  have bound := lineOf_lt chars offset
  have reached := lineStart_lineOf_le chars offset
  have next := lt_of_next chars offset
  generalize lineOf (lineStarts chars) offset = number at *
  rw [length_lineStarts] at bound
  rw [lineStart, List.getD_eq_getElem?_getD, getElem?_lineStarts, if_pos bound] at reached
  have found := List.getElem?_eq_getElem bound
  refine ⟨(lines chars)[number], found, reached, ?_⟩
  have stop := lineBegin_succ found
  rw [Line.length_chars] at stop
  by_cases last : number + 1 = (lines chars).length
  · left
    rw [(ending_eq_nil_iff found).mpr last, last, lineBegin_length] at stop
    simpa [stop] using within
  · have before := next (by omega)
    have kinds := (lines chars)[number].ends
    simp only [lineEndings, List.mem_cons, List.not_mem_nil, or_false] at kinds
    rcases kinds with ending | ending | ending | ending <;>
      simp only [ending, List.length_cons, List.length_nil, reduceCtorEq, false_and, or_false,
        true_and] at stop ⊢ <;> omega

/-- Later offsets are not on earlier lines. -/
theorem OnLine.number_le {other : Line} {later otherNumber : Nat}
    (onLine : OnLine chars offset number line) (there : OnLine chars later otherNumber other)
    (order : offset ≤ later) : number ≤ otherNumber := by
  by_contra before
  have next := there.lt_lineBegin (by have := onLine.lt; omega)
  have behind := lineBegin_mono chars (show otherNumber + 1 ≤ number by omega)
  have first := onLine.first
  omega

/-- An offset is on one line only. -/
theorem OnLine.lineOf_eq (onLine : OnLine chars offset number line) :
    lineOf (lineStarts chars) offset = number := by
  obtain ⟨other, there⟩ := exists_onLine onLine.le_length
  exact le_antisymm (there.number_le onLine (le_refl _)) (onLine.number_le there (le_refl _))

/-- The position of an offset is told by the line that it is on. -/
theorem OnLine.positionOf_eq (onLine : OnLine chars offset number line) :
    positionOf (lineStarts chars) offset = ⟨number, (offset - lineBegin chars number : Nat)⟩ := by
  rw [positionOf, onLine.lineOf_eq, lineStart, List.getD_eq_getElem?_getD, getElem?_lineStarts,
    if_pos onLine.lt, Option.getD_some]

/-! ## Looking a line up by halving -/

/-- How many entries of an ordered table are no greater than a key. The count lies between two bounds, and
the part of the table between them is halved. -/
def countUpTo (table : List Nat) (key low high : Nat) : Nat :=
  if low < high then
    let middle := (low + high) / 2
    if key < table.getD middle 0 then countUpTo table key low middle
    else countUpTo table key (middle + 1) high
  else low
termination_by high - low

/-- Line and column of an offset, the line being looked up by halving the table of line beginnings. -/
def positionByHalving (starts : List Nat) (offset : Nat) : Position :=
  let line := countUpTo starts offset 0 starts.length - 1
  ⟨line, (offset - lineStart starts line : Nat)⟩

section Halving
variable {table : List Nat} {low high : Nat}

private theorem getD_le_iff (ordered : table.Pairwise (· ≤ ·)) (key : Nat) {index : Nat}
    (within : index < table.length) :
    table.getD index 0 ≤ key ↔ index < (table.takeWhile (· ≤ key)).length := by
  have entry : table.getD index 0 = table[index] := by
    rw [List.getD_eq_getElem?_getD, List.getElem?_eq_getElem within, Option.getD_some]
  rw [entry]
  constructor
  · intro reached
    by_contra behind
    have bound : (table.takeWhile (· ≤ key)).length < table.length := by omega
    have stopped := eq_false_of_next (List.getElem?_eq_getElem bound)
    rw [decide_eq_false_iff_not] at stopped
    rcases (not_lt.mp behind).lt_or_eq with before | same
    · have := List.pairwise_iff_getElem.mp ordered _ _ bound within before
      omega
    · simp only [same] at stopped
      exact stopped reached
  · intro before
    have kept := List.mem_takeWhile_imp (List.getElem_mem before)
    have same := (List.takeWhile_prefix (· ≤ key) (l := table)).getElem before
    rw [← same]
    exact of_decide_eq_true kept

/-- Halving counts what a scan counts that stops at the first greater entry. -/
private theorem countUpTo_eq (ordered : table.Pairwise (· ≤ ·)) (key : Nat) (within : high ≤ table.length)
    (first : low ≤ (table.takeWhile (· ≤ key)).length)
    (last : (table.takeWhile (· ≤ key)).length ≤ high) :
    countUpTo table key low high = (table.takeWhile (· ≤ key)).length := by
  induction low, high using countUpTo.induct table key with
  | case1 low high more middle greater ih =>
    rw [countUpTo, if_pos more, if_pos greater]
    have behind := (getD_le_iff ordered key (show middle < table.length by omega)).not
    exact ih (by omega) first (by omega)
  | case2 low high more middle upTo ih =>
    rw [countUpTo, if_pos more, if_neg upTo]
    have before := getD_le_iff ordered key (show middle < table.length by omega)
    exact ih within (by omega) last
  | case3 low high done =>
    rw [countUpTo, if_neg done]
    omega

end Halving

private theorem pairwise_lineStarts (chars : List Char) : (lineStarts chars).Pairwise (· ≤ ·) := by
  rw [List.pairwise_iff_getElem]
  intro index later first second before
  rw [length_lineStarts] at first second
  have table {number : Nat} (bound : number < (lineStarts chars).length) :
      (lineStarts chars)[number] = lineBegin chars number := by
    have entry := getElem?_lineStarts chars number
    rw [length_lineStarts] at bound
    rw [if_pos bound, List.getElem?_eq_some_iff] at entry
    exact entry.2
  rw [table, table]
  exact lineBegin_mono chars before.le

/-- Halving the table of line beginnings finds the same positions as scanning it. -/
theorem positionByHalving_eq (chars : List Char) (offset : Nat) :
    positionByHalving (lineStarts chars) offset = positionOf (lineStarts chars) offset := by
  have count := countUpTo_eq (pairwise_lineStarts chars) offset (le_refl _) (Nat.zero_le _)
    (List.takeWhile_prefix _).length_le
  rw [positionByHalving, count]
  rfl

end EmberAssist.Text
