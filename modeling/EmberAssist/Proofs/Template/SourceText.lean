import EmberAssist.Proofs.Lines
import EmberAssist.Proofs.Template.Fidelity
import EmberAssist.Template.Source

/-! The text of a node. It is put together from the lines that the node's range covers, and the lines are those
by which the parser tells positions; so it is the very text that the node came from. -/
namespace EmberAssist.Template

open Text (lines Line lineBegin lineStarts OnLine)

variable {chars : List Char} {start stop number : Nat} {line : Line}

/-! ## Lines -/

private theorem prefix_linesAfter (written : List Char) {first : Line} {others : List Line}
    (cut : lines chars = first :: others) :
    (written.reverse ++ first.chars) :: others.map Line.chars <+: linesAfter written chars ++ [[]] := by
  induction chars using Text.lines.induct generalizing written first others with
  | case1 =>
    cases cut
    cases written with
    | nil => exact List.prefix_refl _
    | cons c written =>
      refine ⟨[[]], ?_⟩
      rw [linesAfter, if_neg (by simp), Line.chars_blank, List.append_nil]
      rfl
  | case2 rest ih =>
    obtain ⟨line, whole, -, here⟩ := Text.lines_of_both rest
    obtain ⟨next, later, behind⟩ := Text.exists_lines rest
    obtain ⟨rfl, rfl⟩ := List.cons.inj (here.symm.trans cut)
    rw [linesAfter, behind, whole, List.map_cons]
    simpa using ih [] behind
  | case3 c rest single ends ih =>
    obtain ⟨line, whole, -, here⟩ := Text.lines_of_ends single ends
    obtain ⟨next, later, behind⟩ := Text.exists_lines rest
    obtain ⟨rfl, rfl⟩ := List.cons.inj (here.symm.trans cut)
    rw [linesAfter.eq_3 _ _ _ single, if_pos ends, behind, whole, List.map_cons]
    simpa using ih [] behind
  | case4 c rest single inside ih =>
    obtain ⟨next, later, behind⟩ := Text.exists_lines rest
    obtain ⟨rfl, rfl⟩ := List.cons.inj ((Text.lines_of_inside inside behind).symm.trans cut)
    rw [linesAfter.eq_3 _ _ _ single, if_neg inside]
    simpa using ih (c :: written) behind

/-- The lines of a source are those of the text. There may be an empty one behind them. -/
theorem getElem?_sourceLines (found : (lines chars)[number]? = some line) :
    (sourceLines chars)[number]? = some line.chars := by
  obtain ⟨first, others, cut⟩ := Text.exists_lines chars
  obtain ⟨rest, same⟩ := prefix_linesAfter [] cut
  rw [List.reverse_nil, List.nil_append, ← List.map_cons, ← cut] at same
  have bound := (List.getElem?_eq_some_iff.mp found).1
  rw [sourceLines, ← same, List.getElem?_append_left (by rwa [List.length_map]), List.getElem?_map,
    found, Option.map_some]

/-! ## Pieces -/

/-- Two pieces of a text that meet are one piece. -/
private theorem piece_append {middle last : Nat} (order : middle ≤ last) (within : middle ≤ chars.length) :
    (chars.take (min stop middle)).drop start ++ (chars.take (min stop last)).drop (max start middle) =
      (chars.take (min stop last)).drop start := by
  by_cases reached : stop ≤ middle
  · have nothing : (chars.take stop).drop (max start middle) = [] := by
      rw [List.drop_eq_nil_iff, List.length_take]
      omega
    rw [Nat.min_eq_left reached, Nat.min_eq_left (reached.trans order), nothing, List.append_nil]
  have whole : (chars.take (min stop last)).take middle = chars.take middle := by
    rw [List.take_take]
    congr 1
    omega
  rw [Nat.min_eq_right (by omega)]
  by_cases begun : middle ≤ start
  · have nothing : (chars.take middle).drop start = [] := by
      rw [List.drop_eq_nil_iff, List.length_take]
      omega
    rw [Nat.max_eq_left begun, nothing, List.nil_append]
  · have short : start ≤ ((chars.take (min stop last)).take middle).length := by
      rw [whole, List.length_take]
      omega
    rw [Nat.max_eq_right (by omega), ← whole, ← List.drop_append_of_le_length short,
      List.take_append_drop]

/-- The pieces that some lines hold of a text make up what they hold together. -/
private theorem flatMap_pieces (first : lineBegin chars number ≤ start) (stop count : Nat) :
    (List.range count).flatMap (fun index =>
      (chars.take (min stop (lineBegin chars (number + index + 1)))).drop
        (max start (lineBegin chars (number + index)))) =
      (chars.take (min stop (lineBegin chars (number + count)))).drop start := by
  induction count with
  | zero =>
    have nothing : (chars.take (min stop (lineBegin chars number))).drop start = [] := by
      rw [List.drop_eq_nil_iff, List.length_take]
      omega
    exact nothing.symm
  | succ count ih =>
    rw [List.range_succ, List.flatMap_append, ih, List.flatMap_singleton]
    exact piece_append (Text.lineBegin_mono chars (Nat.le_succ _)) (Text.lineBegin_le chars _)

/-- What a range covers of a line goes from the column of its beginning, on the line where it begins, to that
of its end, on the line where it ends. -/
private theorem coveredPart_natCast {first last firstColumn lastColumn : Nat} {text : List Char}
    (within : number = first → firstColumn ≤ text.length) :
    coveredPart ⟨⟨first, firstColumn⟩, ⟨last, lastColumn⟩⟩ number text =
      (text.take (if number = last then lastColumn else text.length)).drop
        (if number = first then firstColumn else 0) := by
  simp only [coveredPart, Int.natCast_inj, Text.slice, Text.takeTo, Text.dropTo, Text.cutPoint_natCast,
    ← List.take_eq_take_min]
  by_cases atFirst : number = first
  · rw [Nat.min_eq_left (within atFirst), if_pos atFirst]
    by_cases atLast : number = last
    · rw [if_pos ⟨atFirst, atLast⟩, if_pos atLast, if_pos atFirst]
    · rw [if_neg (fun both => atLast both.2), if_neg atLast, List.take_length, if_pos atFirst]
  · rw [if_neg (fun both => atFirst both.1), if_neg atFirst, if_neg atFirst, List.drop_zero]
    by_cases atLast : number = last
    · rw [if_pos atLast, if_pos atLast]
    · rw [if_neg atLast, if_neg atLast, List.take_length]

/-- What a range covers of a line is the piece of the text that is both on the line and in the range. -/
private theorem coveredPart_of_line {firstNumber lastNumber : Nat} {firstLine lastLine : Line}
    (begins : OnLine chars start firstNumber firstLine) (ends : OnLine chars stop lastNumber lastLine)
    (found : (lines chars)[number]? = some line) (first : firstNumber ≤ number)
    (last : number ≤ lastNumber) :
    coveredPart (Text.rangeOf (lineStarts chars) ⟨start, stop⟩) number line.chars =
      (chars.take (min stop (lineBegin chars (number + 1)))).drop
        (max start (lineBegin chars number)) := by
  have next := Text.lineBegin_succ found
  have front : (if number = firstNumber then start - lineBegin chars firstNumber else 0) =
      max start (lineBegin chars number) - lineBegin chars number := by
    have reached := begins.first
    have before := begins.le_lineBegin
    split
    · subst number
      omega
    · have later := Text.lineBegin_mono chars (show firstNumber + 1 ≤ number by omega)
      omega
  have back : (if number = lastNumber then stop - lineBegin chars lastNumber else line.chars.length) =
      min stop (lineBegin chars (number + 1)) - lineBegin chars number := by
    have reached := ends.first
    have before := ends.le_lineBegin
    split
    · subst number
      omega
    · have later := Text.lineBegin_mono chars (show number + 1 ≤ lastNumber by omega)
      omega
  have within : number = firstNumber → start - lineBegin chars firstNumber ≤ line.chars.length := by
    rintro rfl
    have before := begins.le_lineBegin
    omega
  have behind := Text.lineBegin_mono chars last
  have reached := ends.first
  rw [Text.rangeOf, begins.positionOf_eq, ends.positionOf_eq, coveredPart_natCast within, front, back]
  exact Text.part_of_line found (by omega) (Nat.min_le_right _ _) (Nat.le_max_right _ _)

/-- The text that a range covers is what stands between the offsets of its ends. -/
theorem sourceOf?_rangeOf (order : start ≤ stop) (within : stop ≤ chars.length) :
    sourceOf? chars (Text.rangeOf (lineStarts chars) ⟨start, stop⟩) =
      .ok (some ((chars.take stop).drop start)) := by
  obtain ⟨firstLine, begins⟩ := Text.exists_onLine (order.trans within)
  obtain ⟨lastLine, ends⟩ := Text.exists_onLine within
  generalize Text.lineOf (lineStarts chars) start = firstNumber at begins
  generalize Text.lineOf (lineStarts chars) stop = lastNumber at ends
  have forward := begins.number_le ends order
  have known : lastNumber < (sourceLines chars).length :=
    (List.getElem?_eq_some_iff.mp (getElem?_sourceLines ends.found)).1
  have pieces := flatMap_pieces begins.first stop (lastNumber + 1 - firstNumber)
  rw [Nat.add_sub_cancel' (by omega), Nat.min_eq_left ends.le_lineBegin] at pieces
  have firstAt : (Text.rangeOf (lineStarts chars) ⟨start, stop⟩).start.line = firstNumber := by
    rw [Text.rangeOf, begins.positionOf_eq]
  have lastAt : (Text.rangeOf (lineStarts chars) ⟨start, stop⟩).stop.line = lastNumber := by
    rw [Text.rangeOf, ends.positionOf_eq]
  have clamped : min (lastNumber : Int) ((sourceLines chars).length - 1) = lastNumber := by omega
  have count : ((lastNumber : Int) + 1 - firstNumber).toNat = lastNumber + 1 - firstNumber := by omega
  rw [sourceOf?]
  simp only [firstAt, lastAt, clamped, count]
  rw [if_neg (by omega), if_neg (by omega), ← pieces]
  refine congrArg (fun text => Except.ok (some text)) (List.flatMap_congr fun index member => ?_)
  have bound := List.mem_range.mp member
  have counted : ((firstNumber : Int) + index) = (firstNumber + index : Nat) := by omega
  have found := List.getElem?_eq_getElem
    (show firstNumber + index < (lines chars).length by have := ends.lt; omega)
  rw [counted, Text.item?_natCast, getElem?_sourceLines found, Option.getD_some]
  exact coveredPart_of_line begins ends found (by omega) (by omega)

/-- The text of a node is what stands in the template between the offsets that have the positions of its
ends. There is one such offset for each end. -/
theorem sourceAt?_of_parse {text : String} {tree node : Node Range} {address : List Slot}
    {range : Range} (parsed : parse text = .ok tree) (found : tree.at? address = some node)
    (placed : node.range = some range) :
    ∃ start stop, start ≤ stop ∧ stop ≤ text.toList.length ∧
      (∀ offset, Text.positionOf (lineStarts text.toList) offset = range.start ↔ offset = start) ∧
      (∀ offset, Text.positionOf (lineStarts text.toList) offset = range.stop ↔ offset = stop) ∧
      sourceAt? text.toList node.range = .ok (some ((text.toList.take stop).drop start)) := by
  obtain ⟨spans, read, rfl⟩ := parse_eq_ok parsed
  rw [Node.at?_mapRange, Option.map_eq_some_iff] at found
  obtain ⟨origin, found, rfl⟩ := found
  rw [Node.range_mapRange, Option.map_eq_some_iff] at placed
  obtain ⟨span, placed, rfl⟩ := placed
  obtain ⟨before, part, after, source, rfl, -⟩ :=
    (parseSpans_origin read found).spelled span placed
  have told := (Text.positionOf_strictMono text.toList).injective
  have within : before.length + part.length ≤ text.toList.length := by
    rw [source]
    simp only [List.length_append]
    omega
  refine ⟨before.length, before.length + part.length, Nat.le_add_right _ _, within, ?_, ?_, ?_⟩
  · intro offset
    exact told.eq_iff
  · intro offset
    exact told.eq_iff
  · rw [Node.range_mapRange, placed]
    exact sourceOf?_rangeOf (Nat.le_add_right _ _) within

/-- An element over three lines, each of which ends in another way. -/
theorem sourceAt?_of_element_over_lines : ∃ tree node,
    parse "a\r<p\r\nb>\n</p>\r" = .ok tree ∧ tree.at? [.body 1] = some node ∧
      node.range = some ⟨⟨1, 0⟩, ⟨3, 4⟩⟩ ∧
      sourceAt? "a\r<p\r\nb>\n</p>\r".toList node.range = .ok (some "<p\r\nb>\n</p>".toList) := by
  have read : (parse "a\r<p\r\nb>\n</p>\r").toOption.bind (fun tree =>
      (tree.at? [.body 1]).map fun node => node.range) = some (some ⟨⟨1, 0⟩, ⟨3, 4⟩⟩) := by
    decide +kernel
  simp only [Option.bind_eq_some_iff, Option.map_eq_some_iff] at read
  obtain ⟨tree, parsed, node, found, placed⟩ := read
  have parsed : parse "a\r<p\r\nb>\n</p>\r" = .ok tree := by
    cases given : parse "a\r<p\r\nb>\n</p>\r" <;> rw [given] at parsed <;> cases parsed
    rfl
  obtain ⟨start, stop, -, -, begins, ends, gives⟩ := sourceAt?_of_parse parsed found placed
  have first : 2 = start := (begins 2).mp (by decide +kernel)
  have last : 13 = stop := (ends 13).mp (by decide +kernel)
  refine ⟨tree, node, parsed, found, placed, ?_⟩
  rw [gives, ← first, ← last]
  decide +kernel

end EmberAssist.Template
