import EmberAssist.Document.Basic
import EmberAssist.Proofs.Lines
import EmberAssist.Proofs.Text

/-! Cursors. Where an editor's position means an offset of a text, the text can be cut: no line end
is broken, so what is before the cut keeps its positions whatever is typed behind it. -/
namespace EmberAssist.Text

variable {offset : Nat} {front back : List Char}

/-- A line end of two characters begins at the end of one text and goes on in another. -/
def Joint (front back : List Char) : Prop := front.getLast? = some '\r' ∧ back.head? = some '\n'

instance (front back : List Char) : Decidable (Joint front back) :=
  inferInstanceAs (Decidable (_ ∧ _))

theorem lt_of_mem_lineStartsFrom {chars : List Char} {start : Nat}
    (member : start ∈ lineStartsFrom offset chars) :
    offset < start ∧ start ≤ offset + chars.length := by
  induction offset, chars using lineStartsFrom.induct with
  | case1 offset => simp [lineStartsFrom] at member
  | case2 offset rest ih =>
    simp only [lineStartsFrom, List.mem_cons, List.length_cons] at member ⊢
    rcases member with rfl | member
    · omega
    · have := ih member
      omega
  | case3 offset c rest single ends ih =>
    simp only [lineStartsFrom, ends, ↓reduceIte, List.mem_cons, List.length_cons] at member ⊢
    rcases member with rfl | member
    · omega
    · have := ih member
      omega
  | case4 offset c rest single inside ih =>
    simp only [lineStartsFrom, inside, ↓reduceIte, List.length_cons] at member ⊢
    have := ih member
    omega

private theorem lineStartsFrom_cons {c : Char} {rest : List Char} (single : ¬ Joint [c] rest) :
    lineStartsFrom offset (c :: rest) =
      (if c = '\r' ∨ c = '\n' then [offset + 1] else []) ++ lineStartsFrom (offset + 1) rest := by
  rw [lineStartsFrom]
  · split <;> rfl
  · rintro later rfl rfl
    exact single ⟨rfl, rfl⟩

private theorem Joint.append (before : List Char) (joint : Joint front back) :
    Joint (before ++ front) back := by
  obtain ⟨last, head⟩ := joint
  exact ⟨by rw [List.getLast?_append, last]; rfl, head⟩

/-- A text that is cut between two lines or inside one has the lines of both pieces. -/
theorem lineStartsFrom_append (whole : ¬ Joint front back) :
    lineStartsFrom offset (front ++ back) =
      lineStartsFrom offset front ++ lineStartsFrom (offset + front.length) back := by
  induction offset, front using lineStartsFrom.induct with
  | case1 offset => simp [lineStartsFrom]
  | case2 offset rest ih =>
    rw [List.cons_append, List.cons_append, lineStartsFrom, lineStartsFrom,
      ih fun joint => whole (joint.append ['\r', '\n'])]
    simp only [List.length_cons, List.cons_append]
    congr 3
    omega
  | case3 offset c rest single ends ih | case4 offset c rest single ends ih =>
    have alone : ¬ Joint [c] rest := by
      rintro ⟨last, head⟩
      obtain ⟨later, rfl⟩ := List.head?_eq_some_iff.mp head
      exact single later (Option.some.inj last) rfl
    have apart : ¬ Joint [c] (rest ++ back) := by
      rintro ⟨last, head⟩
      cases rest with
      | nil => exact whole ⟨last, head⟩
      | cons d rest => exact alone ⟨last, head⟩
    rw [List.cons_append, lineStartsFrom_cons alone, lineStartsFrom_cons apart,
      ih fun joint => whole (joint.append [c]), List.append_assoc, List.length_cons]
    congr 3
    omega

/-- What is typed behind a cursor is on lines that begin behind the cursor. -/
private theorem begun_append {chars : List Char} (whole : ¬ Joint front back)
    (order : offset ≤ front.length) (cut : chars = front ++ back) :
    begun chars offset = begun front offset := by
  have later : (lineStartsFrom (0 + front.length) back).takeWhile (· ≤ offset) = [] := by
    rw [List.takeWhile_eq_nil_iff]
    intro filled first
    have := (lt_of_mem_lineStartsFrom (List.get_mem _ ⟨0, filled⟩)).1
    simp only [decide_eq_true_eq] at first
    omega
  subst cut
  unfold begun lineStarts
  rw [lineStartsFrom_append whole, ← List.cons_append, List.takeWhile_append]
  split
  · rename_i all
    rw [later, List.append_nil]
    exact (List.takeWhile_prefix _).eq_of_length all |>.symm
  · rfl

/-- Up to a cursor that breaks no line end the positions do not depend on the text behind it. -/
theorem positionOf_append {chars : List Char} (whole : ¬ Joint front back)
    (order : offset ≤ front.length) (cut : chars = front ++ back) :
    positionOf (lineStarts chars) offset = positionOf (lineStarts front) offset := by
  rw [positionOf_lineStarts, positionOf_lineStarts, begun_append whole order cut]

/-- The positions up to a cursor do not change when something is typed there that is no line end. -/
theorem positionOf_typed {c : Char} {rest : List Char} (whole : ¬ Joint front back) (plain : c ≠ '\n')
    (order : offset ≤ front.length) :
    positionOf (lineStarts (front ++ back)) offset =
      positionOf (lineStarts (front ++ (c :: rest ++ back))) offset := by
  have apart : ¬ Joint front (c :: rest ++ back) := by
    rintro ⟨-, head⟩
    exact plain (Option.some.inj head)
  rw [positionOf_append whole order rfl, positionOf_append apart order rfl]

private theorem Joint.of_cons {c : Char} (joint : Joint (c :: front) back) :
    front = [] ∧ c = '\r' ∨ Joint front back := by
  obtain ⟨last, head⟩ := joint
  cases front with
  | nil => exact .inl ⟨rfl, Option.some.inj last⟩
  | cons d front => exact .inr ⟨by rwa [List.getLast?_cons_cons] at last, head⟩

/-- No line begins inside a line end. -/
theorem not_joint_lines {chars : List Char} {before behind : List Line}
    (cut : lines chars = before ++ behind) :
    ¬ Joint (before.flatMap Line.chars) (behind.flatMap Line.chars) := by
  induction chars using lines.induct generalizing before with
  | case1 =>
    intro joint
    cases before with
    | nil => cases joint.1
    | cons first before =>
      obtain ⟨-, rest⟩ := List.cons.inj cut
      obtain ⟨-, rfl⟩ := List.append_eq_nil_iff.mp rest.symm
      cases joint.2
  | case2 rest ih =>
    intro joint
    cases before with
    | nil => cases joint.1
    | cons first before =>
      obtain ⟨rfl, behind⟩ := List.cons.inj cut
      rcases joint.of_cons with ⟨cut, -⟩ | joint
      · cases cut
      rcases joint.of_cons with ⟨-, same⟩ | joint
      · exact absurd same (by decide)
      · exact ih behind joint
  | case3 c rest single ends ih =>
    intro joint
    cases before with
    | nil => cases joint.1
    | cons first before =>
      obtain ⟨line, whole, -, here⟩ := lines_of_ends single ends
      rw [here] at cut
      obtain ⟨rfl, behind⟩ := List.cons.inj cut
      rw [List.flatMap_cons, whole] at joint
      rcases joint.of_cons with ⟨none, same⟩ | inner
      · have source := flatMap_lines rest
        rw [behind, List.append_eq, List.flatMap_append] at source
        obtain ⟨later, head⟩ := List.head?_eq_some_iff.mp joint.2
        exact single later same (source.symm.trans ((congrArg (· ++ _) none).trans head))
      · exact ih behind inner
  | case4 c rest single inside ih =>
    intro joint
    cases before with
    | nil => cases joint.1
    | cons first before =>
      obtain ⟨line, others, there⟩ := exists_lines rest
      rw [lines_of_inside inside there] at cut
      obtain ⟨rfl, later⟩ := List.cons.inj cut
      rw [List.flatMap_cons, Line.chars_cons] at joint
      rcases joint.of_cons with ⟨-, same⟩ | joint
      · exact inside (.inl same)
      · have here : lines rest = (line :: before) ++ behind := by
          rw [there, later]
          rfl
        exact ih here joint

theorem not_joint_lineBegin (chars : List Char) (number : Nat) :
    ¬ Joint (chars.take (lineBegin chars number)) (chars.drop (lineBegin chars number)) := by
  rw [take_lineBegin, drop_lineBegin]
  exact not_joint_lines (List.take_append_drop number (lines chars)).symm

/-- A cut behind a character is joint if the character is the first of two that end a line together. -/
private theorem joint_succ_iff {chars : List Char} :
    Joint (chars.take (offset + 1)) (chars.drop (offset + 1)) ↔
      chars[offset]? = some '\r' ∧ chars[offset + 1]? = some '\n' := by
  rw [Joint, List.head?_drop, List.getLast?_take, if_neg (by omega), Nat.add_sub_cancel]
  constructor
  · intro joint
    have more := (List.getElem?_eq_some_iff.mp joint.2).1
    obtain ⟨last, head⟩ := joint
    rw [List.getElem?_eq_getElem (by omega), Option.some_or] at last
    exact ⟨by rw [List.getElem?_eq_getElem (by omega), last], head⟩
  · intro stands
    exact ⟨by rw [stands.1, Option.some_or], stands.2⟩

section
variable {chars : List Char} {number : Nat} {line : Line}

/-- What is written on a line is no part of a line end. -/
theorem not_joint_of_line (found : (lines chars)[number]? = some line)
    (first : lineBegin chars number ≤ offset)
    (last : offset ≤ lineBegin chars number + line.content.length) :
    ¬ Joint (chars.take offset) (chars.drop offset) := by
  intro joint
  obtain ⟨count, rfl⟩ := Nat.exists_eq_add_of_le first
  cases count with
  | zero => exact not_joint_lineBegin chars number joint
  | succ index =>
    have written : index < line.content.length := by omega
    rw [← Nat.add_assoc, joint_succ_iff] at joint
    rw [getElem?_of_line found (by rw [line.length_chars]; omega), Line.chars,
      List.getElem?_append_left written] at joint
    exact line.plain _ (List.mem_of_getElem? joint.1) (.inl rfl)

/-- Between the two characters that end a line the line end is broken. -/
theorem joint_of_both (found : (lines chars)[number]? = some line)
    (both : line.ending = ['\r', '\n']) :
    Joint (chars.take (lineBegin chars number + line.content.length + 1))
      (chars.drop (lineBegin chars number + line.content.length + 1)) := by
  have length := line.length_chars
  rw [both, List.length_cons, List.length_singleton] at length
  rw [joint_succ_iff, getElem?_of_line found (by omega), Nat.add_assoc,
    getElem?_of_line found (by omega), Line.chars, both]
  simp

end

end EmberAssist.Text

namespace EmberAssist

open Text (lines Line lineBegin)

theorem charsBefore_le (column : Int) (chars : List Char) :
    charsBefore column chars ≤ chars.length := by
  induction chars generalizing column with
  | nil => simp [charsBefore]
  | cons c rest ih =>
    have := ih (column - units16 c)
    simp only [charsBefore, List.length_cons]
    split <;> omega

namespace Document

variable {document : Document} {p : Position} {number : Nat} {line : Line}

private theorem lineEnd_of_line (found : (lines document.chars)[number]? = some line) :
    lineEnd document.chars (lineBegin document.chars number) (lineBegin document.chars (number + 1)) =
      lineBegin document.chars number + line.content.length := by
  have ended : ∀ c ∈ line.ending.reverse, (c == '\r' || c == '\n') = true := by
    intro c member
    simpa using Line.of_mem_ending (List.mem_reverse.mp member)
  have written : line.content.reverse.dropWhile (fun c => c == '\r' || c == '\n') =
      line.content.reverse := by
    rw [List.dropWhile_eq_self_iff]
    intro filled
    have plain := line.plain _ (List.mem_reverse.mp (List.getElem_mem filled))
    simpa using plain
  rw [lineEnd, Text.chars_of_line found, Line.chars, List.reverse_append,
    List.dropWhile_append_of_pos ended, written, List.length_reverse]

/-- The bounds of a line are those of what is written on it. -/
theorem lineBounds?_of_line (found : (lines document.chars)[number]? = some line) :
    document.lineBounds? number = some (lineBegin document.chars number,
      lineBegin document.chars number + line.content.length) := by
  have bound := (List.getElem?_eq_some_iff.mp found).1
  have first : Text.item? document.starts (number : Int) = some (lineBegin document.chars number) := by
    rw [Text.item?_natCast, starts, Text.getElem?_lineStarts, if_pos bound]
  have next : (if (number : Int) + 1 < document.starts.length then
      (Text.item? document.starts (number + 1)).getD 0 else document.chars.length) =
      lineBegin document.chars (number + 1) := by
    rw [starts, Text.length_lineStarts]
    by_cases more : number + 1 < (lines document.chars).length
    · rw [if_pos (by omega), ← Int.natCast_succ, Text.item?_natCast, Text.getElem?_lineStarts,
        if_pos more, Option.getD_some]
    · rw [if_neg (by omega), show number + 1 = (lines document.chars).length by omega,
        Text.lineBegin_length]
  have stop := Text.lineBegin_succ found
  rw [Line.length_chars] at stop
  simp only [lineBounds?, first, bind, Option.bind_some, next, lineEnd_of_line found]
  split
  · rfl
  · have same : lineBegin document.chars (number + 1) =
        lineBegin document.chars number + line.content.length := by omega
    rw [same]
    rfl

/-- An editor's position on a line means an offset of what is written there. -/
theorem offsetAt_of_line (found : (lines document.chars)[number]? = some line)
    (asked : max p.line 0 = number) :
    document.offsetAt p = lineBegin document.chars number + charsBefore p.column line.content := by
  have bound := (List.getElem?_eq_some_iff.mp found).1
  rw [offsetAt, starts, Text.length_lineStarts, if_neg (by omega), asked, lineBounds?_of_line found]
  simp only [Text.content_of_line found]

/-- An editor's position behind the last line means the end of the text. -/
theorem offsetAt_beyond (beyond : (lines document.chars).length ≤ p.line) :
    document.offsetAt p = document.chars.length := by
  rw [offsetAt, starts, Text.length_lineStarts, if_pos beyond]

/-- An editor's position is on a line or behind the last one. -/
theorem offsetAt_cases (document : Document) (p : Position) :
    (lines document.chars).length ≤ p.line ∨
      ∃ number line, (lines document.chars)[number]? = some line ∧ max p.line 0 = (number : Nat) := by
  by_cases beyond : (lines document.chars).length ≤ p.line
  · exact .inl beyond
  · obtain ⟨first, others, filled⟩ := Text.exists_lines document.chars
    have bound : (max p.line 0).toNat < (lines document.chars).length := by
      have : 0 < (lines document.chars).length := by simp [filled]
      omega
    exact .inr ⟨_, _, List.getElem?_eq_getElem bound, by omega⟩

/-- An editor's position never means an offset outside the text. -/
theorem offsetAt_le (document : Document) (p : Position) :
    document.offsetAt p ≤ document.chars.length := by
  rcases document.offsetAt_cases p with beyond | ⟨number, line, found, asked⟩
  · exact (offsetAt_beyond beyond).le
  · have next := Text.content_le_lineBegin found
    have last := Text.lineBegin_le document.chars (number + 1)
    have column := charsBefore_le p.column line.content
    rw [offsetAt_of_line found asked]
    omega

/-- An editor's position never means an offset inside a line end. -/
theorem offsetAt_whole (document : Document) (p : Position) :
    ¬ Text.Joint (document.chars.take (document.offsetAt p))
      (document.chars.drop (document.offsetAt p)) := by
  intro joint
  rcases document.offsetAt_cases p with beyond | ⟨number, line, found, asked⟩
  · rw [offsetAt_beyond beyond, List.drop_length] at joint
    cases joint.2
  · have column := charsBefore_le p.column line.content
    rw [offsetAt_of_line found asked] at joint
    exact Text.not_joint_of_line found (Nat.le_add_right _ _) (by omega) joint

end Document

end EmberAssist
