import EmberAssist.Proofs.Cursor

/-! Offsets and the positions by which an editor knows them. Both are told line by line, and on a line the
columns grow with the offsets. All that a position cannot tell apart are the two places before and between
the characters that end a line together. -/
namespace EmberAssist

open Text (lines Line lineBegin OnLine)

/-! ## Columns -/

theorem units16_pos (c : Char) : 0 < units16 c := by
  unfold units16
  split <;> decide

theorem length16_cons (c : Char) (chars : List Char) :
    length16 (c :: chars) = units16 c + length16 chars := rfl

theorem length16_append (front back : List Char) :
    length16 (front ++ back) = length16 front + length16 back := by
  induction front with
  | nil => simp [length16]
  | cons c front ih => rw [List.cons_append, length16_cons, length16_cons, ih, Nat.add_assoc]

/-- More characters begin before a later column. -/
theorem charsBefore_mono {column later : Int} (order : column ≤ later) (chars : List Char) :
    charsBefore column chars ≤ charsBefore later chars := by
  induction chars generalizing column later with
  | nil => exact le_refl _
  | cons c rest ih =>
    have behind := ih (show column - units16 c ≤ later - units16 c by omega)
    simp only [charsBefore]
    split
    · rw [if_pos (by omega)]
      omega
    · exact Nat.zero_le _

/-- The characters before the column at which a text ends are those of the text. -/
theorem charsBefore_length16 (front back : List Char) :
    charsBefore (length16 front) (front ++ back) = front.length := by
  induction front with
  | nil => cases back <;> simp [length16, charsBefore]
  | cons c front ih =>
    have filled := units16_pos c
    rw [List.cons_append, charsBefore, length16_cons, if_pos (by omega)]
    rw [show ((units16 c + length16 front : Nat) : Int) - units16 c = length16 front by omega, ih,
      List.length_cons, Nat.add_comm]

/-- No characters begin behind the column at which a text ends. -/
theorem charsBefore_of_length16_le {column : Int} {chars : List Char}
    (behind : (length16 chars : Int) ≤ column) : charsBefore column chars = chars.length := by
  have all := charsBefore_length16 chars []
  rw [List.append_nil] at all
  exact le_antisymm (charsBefore_le column chars) (all ▸ charsBefore_mono behind chars)

namespace Document

variable {document : Document} {offset number : Nat} {line : Line} {p q : Position}

/-! ## There and back -/

/-- The editor's position of an offset is told by the line that the offset is on. -/
theorem positionAt_of_onLine (onLine : OnLine document.chars offset number line) :
    document.positionAt offset =
      ⟨number, length16 (line.chars.take (offset - lineBegin document.chars number))⟩ := by
  have clamped : min (max (offset : Int) 0).toNat document.chars.length = offset := by
    have := onLine.le_length
    omega
  have begun : Text.lineStart document.starts number = lineBegin document.chars number := by
    rw [Text.lineStart, List.getD_eq_getElem?_getD, starts, Text.getElem?_lineStarts,
      if_pos onLine.lt, Option.getD_some]
  have part := Text.part_of_line onLine.found onLine.first onLine.le_lineBegin
    (le_refl (lineBegin document.chars number))
  rw [Nat.sub_self, List.drop_zero] at part
  rw [positionAt, clamped, starts, onLine.lineOf_eq, ← starts, begun, part]

/-- What is between two characters that end a line is taken for the end of what is written there. -/
theorem offsetAt_positionAt_of_onLine (onLine : OnLine document.chars offset number line) :
    document.offsetAt (document.positionAt offset) =
      min offset (lineBegin document.chars number + line.content.length) := by
  have first := onLine.first
  rw [positionAt_of_onLine onLine, offsetAt_of_line onLine.found (by simp), Line.chars]
  by_cases written : offset ≤ lineBegin document.chars number + line.content.length
  · have short : offset - lineBegin document.chars number ≤ line.content.length := by omega
    have before := charsBefore_length16 (line.content.take (offset - lineBegin document.chars number))
      (line.content.drop (offset - lineBegin document.chars number))
    rw [List.take_append_drop, List.length_take_of_le short] at before
    rw [List.take_append_of_le_length short, before]
    omega
  · have long : line.content.length ≤ offset - lineBegin document.chars number := by omega
    rw [List.take_append, List.take_of_length_le long, charsBefore_of_length16_le]
    · omega
    · simp only [length16_append]
      omega

/-- An offset comes back from its editor's position, but for one between two characters that end a line
together. -/
theorem offsetAt_positionAt (within : offset ≤ document.chars.length) :
    document.offsetAt (document.positionAt offset) =
      if Text.Joint (document.chars.take offset) (document.chars.drop offset) then offset - 1
      else offset := by
  obtain ⟨line, onLine⟩ := Text.exists_onLine within
  generalize Text.lineOf _ _ = number at onLine
  rw [offsetAt_positionAt_of_onLine onLine]
  rcases onLine.last with written | ⟨both, rfl⟩
  · rw [if_neg (Text.not_joint_of_line onLine.found onLine.first written), Nat.min_eq_left written]
  · rw [if_pos (Text.joint_of_both onLine.found both), Nat.add_sub_cancel,
      Nat.min_eq_right (Nat.le_succ _)]

/-- The editor's position of a position on a line is that of the offset, or of the end of what is written on
the line. -/
theorem wirePosition_of_line (found : (lines document.chars)[number]? = some line) (column : Nat) :
    document.wirePosition ⟨number, column⟩ = .ok (document.positionAt
      (lineBegin document.chars number + min column line.content.length : Nat)) := by
  have bound := (List.getElem?_eq_some_iff.mp found).1
  have least : min ((lineBegin document.chars number : Int) + column)
      (lineBegin document.chars number + line.content.length : Nat) =
      (lineBegin document.chars number + min column line.content.length : Nat) := by
    omega
  rw [wirePosition, starts, Text.length_lineStarts, if_neg (by simp only; omega)]
  simp only [lineBounds?_of_line found, least]

/-- Behind a character that is no line end is a position that an editor can ask for. -/
theorem wirePosition_behind {c : Char} (here : document.chars[offset]? = some c)
    (inside : ¬ (c = '\r' ∨ c = '\n')) :
    let place := Text.positionOf document.starts offset
    document.wirePosition ⟨place.line, place.column + 1⟩ =
        .ok (document.positionAt (offset + 1 : Nat)) ∧
      document.offsetAt (document.positionAt (offset + 1 : Nat)) = offset + 1 := by
  have within := (List.getElem?_eq_some_iff.mp here).1
  obtain ⟨line, onLine⟩ := Text.exists_onLine within.le
  generalize Text.lineOf _ _ = number at onLine
  have first := onLine.first
  have written := onLine.lt_content here inside
  have behind : OnLine document.chars (offset + 1) number line :=
    ⟨onLine.found, by omega, .inl written⟩
  have column : ((offset - lineBegin document.chars number : Nat) : Int) + 1 =
      (offset + 1 - lineBegin document.chars number : Nat) := by
    omega
  have reached : lineBegin document.chars number +
      min (offset + 1 - lineBegin document.chars number) line.content.length = offset + 1 := by
    omega
  constructor
  · rw [starts, onLine.positionOf_eq]
    simp only
    rw [column, wirePosition_of_line onLine.found, reached]
  · rw [offsetAt_positionAt_of_onLine behind, Nat.min_eq_left written]

/-- A later position of an editor never means an earlier offset, unless it is before the first line. -/
theorem offsetAt_mono (order : p ≤ q) (first : 0 ≤ p.line) :
    document.offsetAt p ≤ document.offsetAt q := by
  rw [Position.le_iff] at order
  rcases document.offsetAt_cases q with beyond | ⟨later, behind, laterFound, laterAsked⟩
  · rw [offsetAt_beyond beyond]
    exact document.offsetAt_le p
  rcases document.offsetAt_cases p with beyond | ⟨number, line, found, asked⟩
  · have bound := (List.getElem?_eq_some_iff.mp laterFound).1
    omega
  rw [offsetAt_of_line found asked, offsetAt_of_line laterFound laterAsked]
  rcases order with before | ⟨same, columns⟩
  · have next := Text.lineBegin_mono document.chars (show number + 1 ≤ later by omega)
    have written := Text.content_le_lineBegin found
    have column := charsBefore_le p.column line.content
    omega
  · obtain rfl : number = later := by omega
    cases found.symm.trans laterFound
    exact Nat.add_le_add_left (charsBefore_mono columns _) _

/-- Offsets and editors' positions are converted consistently: an offset comes back, but for one between
two characters that end a line together, which comes back as the one before them; an editor's
position means an offset of the text that breaks no line end and comes back; and from the first line on the
offsets are ordered as the positions are. -/
theorem conversions_agree (document : Document) :
    (∀ offset : Nat, offset ≤ document.chars.length →
      document.offsetAt (document.positionAt offset) =
        if Text.Joint (document.chars.take offset) (document.chars.drop offset) then offset - 1
        else offset) ∧
    (∀ p, document.offsetAt p ≤ document.chars.length ∧
      ¬ Text.Joint (document.chars.take (document.offsetAt p))
        (document.chars.drop (document.offsetAt p)) ∧
      document.offsetAt (document.positionAt (document.offsetAt p)) = document.offsetAt p) ∧
    ∀ p q, p ≤ q → 0 ≤ p.line → document.offsetAt p ≤ document.offsetAt q := by
  refine ⟨?_, ?_, ?_⟩
  · intro offset within
    exact offsetAt_positionAt within
  · intro p
    have within := document.offsetAt_le p
    have whole := document.offsetAt_whole p
    exact ⟨within, whole, by rw [offsetAt_positionAt within, if_neg whole]⟩
  · intro p q order first
    exact offsetAt_mono order first

theorem conversions_agree_at_mixed_ends :
    let document : Document := ⟨"", "a\r\n😀b\rc".toList, 0⟩
    2 ≤ document.chars.length ∧ document.offsetAt (document.positionAt (2 : Nat)) = 1 ∧
      (⟨1, 1⟩ : Position) ≤ ⟨1, 3⟩ ∧ document.offsetAt ⟨1, 1⟩ ≤ document.offsetAt ⟨1, 3⟩ := by
  intro document
  obtain ⟨back, -, ordered⟩ := conversions_agree document
  refine ⟨by decide, ?_, by decide, ordered ⟨1, 1⟩ ⟨1, 3⟩ (by decide) (by decide)⟩
  rw [back 2 (by decide)]
  decide

/-! ## Columns of characters -/

/-- The editor's position of the position in characters of an offset that breaks no line end is that of the
offset. -/
theorem wirePosition_positionOf (within : offset ≤ document.chars.length)
    (whole : ¬ Text.Joint (document.chars.take offset) (document.chars.drop offset)) :
    document.wirePosition (Text.positionOf document.starts offset) =
      .ok (document.positionAt offset) := by
  obtain ⟨line, onLine⟩ := Text.exists_onLine within
  generalize Text.lineOf _ _ = number at onLine
  have first := onLine.first
  have written : offset ≤ lineBegin document.chars number + line.content.length := by
    rcases onLine.last with written | ⟨both, rfl⟩
    · exact written
    · exact absurd (Text.joint_of_both onLine.found both) whole
  have reached : lineBegin document.chars number +
      min (offset - lineBegin document.chars number) line.content.length = offset := by
    omega
  rw [starts, onLine.positionOf_eq, wirePosition_of_line onLine.found, reached]

/-- Positions in characters and editors' positions undo one another. An editor's position comes back as the
one of the offset that it means, and the position in characters of an offset comes back as it was, and means
the offset, but for an offset between two characters that end a line together. -/
theorem columns_agree (document : Document) :
    (∀ p, document.wirePosition (document.codepointPosition p) =
      .ok (document.positionAt (document.offsetAt p))) ∧
    ∀ offset, offset ≤ document.chars.length →
      ¬ Text.Joint (document.chars.take offset) (document.chars.drop offset) →
      ∃ wire, document.wirePosition (Text.positionOf document.starts offset) = .ok wire ∧
        document.codepointPosition wire = Text.positionOf document.starts offset ∧
        document.offsetAt wire = offset := by
  constructor
  · intro p
    exact wirePosition_positionOf (document.offsetAt_le p) (document.offsetAt_whole p)
  · intro offset within whole
    have back : document.offsetAt (document.positionAt offset) = offset := by
      rw [offsetAt_positionAt within, if_neg whole]
    refine ⟨document.positionAt offset, wirePosition_positionOf within whole, ?_, back⟩
    rw [codepointPosition, back]

theorem columns_agree_behind_wide_character :
    let document : Document := ⟨"", "a\r\n😀b\rc".toList, 0⟩
    document.wirePosition (document.codepointPosition ⟨1, 1⟩) = .ok ⟨1, 2⟩ ∧
      4 ≤ document.chars.length ∧
      ¬ Text.Joint (document.chars.take 4) (document.chars.drop 4) ∧
      ∃ wire, document.wirePosition ⟨1, 1⟩ = .ok wire ∧
        document.codepointPosition wire = ⟨1, 1⟩ ∧ document.offsetAt wire = 4 := by
  intro document
  obtain ⟨there, back⟩ := columns_agree document
  have within : 4 ≤ document.chars.length := by decide
  have whole : ¬ Text.Joint (document.chars.take 4) (document.chars.drop 4) := by decide
  refine ⟨?_, within, whole, ?_⟩
  · rw [there ⟨1, 1⟩]
    decide
  · exact back 4 within whole

end Document

end EmberAssist
