import EmberAssist.Proofs.Template.Offered

/-! The place of a cursor. The editor and the parser tell it alike, and typing a placeholder there moves
neither the cursor nor what is before it; so every cursor lies inside the template that is read. -/
namespace EmberAssist.Template

open Node

variable {p : Position}

/-! ## The whole template -/

/-- The tree of a text is a template that spans the text. -/
theorem parseSpans_whole {chars : List Char} {tree : Node Span} (parsed : parseSpans chars = .ok tree) :
    ∃ statements, tree = .mk (some ⟨0, chars.length⟩) (.template statements []) := by
  obtain ⟨statements, stop, reads, ends, rfl⟩ := parseSpans_eq_ok.mp parsed
  refine ⟨statements, ?_⟩
  rw [between, Input.offset_of_atEnd reads.le ends]
  rfl

/-- A trail to a position inside the root of a tree begins at the root. -/
theorem exists_trail_from_root {tree : Node Range} {range : Range} (placed : tree.range = some range)
    (inside : range.contains p) :
    ∃ trail others, tree.trailTo? p = some trail ∧ trail.visits = ⟨tree, []⟩ :: others := by
  rw [trailTo?, visitsAt_of_contains placed inside]
  exact ⟨_, _, rfl, rfl⟩

/-- Every offset of a text is inside its template. -/
theorem exists_trail_of_offset {chars : List Char} {tree : Node Range}
    (parsed : parse (String.ofList chars) = .ok tree) {offset : Nat} (within : offset ≤ chars.length) :
    (∃ statements, tree.layer = .template statements []) ∧ ∃ trail others,
      tree.trailTo? (Text.positionOf (Text.lineStarts chars) offset) = some trail ∧
        trail.visits = ⟨tree, []⟩ :: others := by
  obtain ⟨spans, read, rfl⟩ := parse_ofList.mp parsed
  obtain ⟨statements, rfl⟩ := parseSpans_whole read
  have ordered := (Text.positionOf_strictMono chars).monotone
  constructor
  · exact ⟨_, layer_inText _ _⟩
  · apply exists_trail_from_root (range_inText _ _)
    rw [Range.contains_iff]
    exact ⟨ordered (Nat.zero_le _), ordered within⟩

/-- The position of a cursor is the one that the parser tells, which looks lines up by halving, both in the
text and in the text with a placeholder typed at the cursor. If the latter can be read, there is a trail to
the cursor, and it begins at the template. -/
theorem codepointPosition_patched (document : Document) (p : Position) {placeholder : String}
    (plain : ∀ c ∈ placeholder.toList, ¬ (c = '\r' ∨ c = '\n')) :
    let offset := document.offsetAt p
    let patched := insertPlaceholder document.chars offset placeholder.toList
    document.codepointPosition p = Text.positionByHalving (Text.lineStarts document.chars) offset ∧
      document.codepointPosition p = Text.positionByHalving (Text.lineStarts patched) offset ∧
      ∀ tree, parse (String.ofList patched) = .ok tree →
        (∃ statements, tree.layer = .template statements []) ∧ ∃ trail others,
          focusAt parse placeholder document p = .ok (some trail) ∧
            trail.visits = ⟨tree, []⟩ :: others := by
  intro offset patched
  obtain ⟨front, back, cut⟩ := exists_cut document p
  have spelled : patched = front ++ (placeholder.toList ++ back) := cut.insertPlaceholder _
  have kept : document.codepointPosition p = Text.positionOf (Text.lineStarts patched) offset := by
    have unended : ∀ c ∈ placeholder.toList.head?, c ≠ '\n' := by
      intro c head ends
      exact plain c (List.mem_of_mem_head? head) (.inr ends)
    rw [spelled, cut.positionOf_patched unended cut.here.le]
    rfl
  refine ⟨?_, ?_, ?_⟩
  · rw [Text.positionByHalving_eq]
    rfl
  · rw [Text.positionByHalving_eq, kept]
  · intro tree parsed
    have within : offset ≤ patched.length := by
      rw [spelled, List.length_append]
      exact cut.here.le.trans (Nat.le_add_right _ _)
    obtain ⟨template, trail, others, gives, visits⟩ := exists_trail_of_offset parsed within
    rw [← kept] at gives
    exact ⟨template, trail, others, focusAt_eq_ok.mpr ⟨tree, parsed, gives⟩, visits⟩

theorem codepointPosition_patched_between_ends :
    let document : Document := ⟨"", "a\r\n\x7b\x7b\n\x7d\x7d".toList, 0⟩
    (∀ c ∈ "this".toList, ¬ (c = '\r' ∨ c = '\n')) ∧ document.offsetAt ⟨1, 9⟩ = 5 ∧
      Text.positionByHalving (Text.lineStarts document.chars) 5 = ⟨1, 2⟩ ∧
      Text.positionByHalving (Text.lineStarts "a\r\n\x7b\x7bthis\n\x7d\x7d".toList) 5 = ⟨1, 2⟩ ∧
      ∃ tree trail others, parse "a\r\n\x7b\x7bthis\n\x7d\x7d" = .ok tree ∧
        focusAt parse "this" document ⟨1, 9⟩ = .ok (some trail) ∧
          trail.visits = ⟨tree, []⟩ :: others := by
  intro document
  have plain : ∀ c ∈ "this".toList, ¬ (c = '\r' ∨ c = '\n') := by simp
  obtain ⟨inText, inPatched, focused⟩ := codepointPosition_patched document ⟨1, 9⟩ plain
  have offset : document.offsetAt ⟨1, 9⟩ = 5 := by decide +kernel
  have patched : insertPlaceholder document.chars (document.offsetAt ⟨1, 9⟩) "this".toList =
      "a\r\n\x7b\x7bthis\n\x7d\x7d".toList := by decide +kernel
  have place : document.codepointPosition ⟨1, 9⟩ = ⟨1, 2⟩ := by decide +kernel
  rw [patched, String.ofList_toList] at focused
  rw [place, offset] at inText
  rw [place, patched, offset] at inPatched
  have read : (parse "a\r\n\x7b\x7bthis\n\x7d\x7d").isOk = true := by decide +kernel
  refine ⟨plain, offset, inText.symm, inPatched.symm, ?_⟩
  cases parsed : parse "a\r\n\x7b\x7bthis\n\x7d\x7d" with
  | error fault =>
    rw [parsed] at read
    cases read
  | ok tree =>
    obtain ⟨-, trail, others, gives, visits⟩ := focused tree parsed
    exact ⟨tree, trail, others, rfl, gives, visits⟩

end EmberAssist.Template
