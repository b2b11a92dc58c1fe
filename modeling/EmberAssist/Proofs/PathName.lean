import EmberAssist.Document.Language
import EmberAssist.Proofs.Path
import Mathlib.Data.List.TakeDrop
import Mathlib.Data.List.TakeWhile

/-! The last segments of paths, and the suffixes of their names. -/
namespace EmberAssist.FilePath

open Text

variable {chars name stem extension : List Char} {path : FilePath}

/-- A text holds a character for the last time, unless it does not hold it at all. -/
theorem cut_at_last (c : Char) (chars : List Char) :
    c ∉ chars ∨ ∃ front back, chars = front ++ c :: back ∧ c ∉ back := by
  by_cases held : c ∈ chars
  · obtain ⟨back, front, cut, last⟩ := List.eq_append_cons_of_mem (List.mem_reverse.mpr held)
    refine .inr ⟨front.reverse, back.reverse, ?_, by simpa using last⟩
    simpa using congrArg List.reverse cut
  · exact .inl held

theorem bne_of_notMem {c : Char} (free : c ∉ chars) : ∀ d ∈ chars.reverse, (d != c) = true := by
  intro d member
  rw [bne_iff_ne]
  rintro rfl
  exact free (List.mem_reverse.mp member)

theorem span_reverse_of_notMem {c : Char} (free : c ∉ chars) :
    chars.reverse.span (· != c) = (chars.reverse, []) := by
  rw [List.span_eq_takeWhile_dropWhile, List.takeWhile_eq_self_iff.mpr (bne_of_notMem free),
    List.dropWhile_eq_nil_iff.mpr (bne_of_notMem free)]

theorem span_reverse_append {c : Char} {back : List Char} (free : c ∉ back) (front : List Char) :
    (front ++ c :: back).reverse.span (· != c) = (back.reverse, c :: front.reverse) := by
  rw [List.span_eq_takeWhile_dropWhile, List.reverse_append, List.reverse_cons, List.append_assoc,
    List.singleton_append, List.takeWhile_append_of_pos (bne_of_notMem free),
    List.dropWhile_append_of_pos (bne_of_notMem free)]
  simp

/-! ## The last segment -/

theorem splitLast_of_notMem (single : '/' ∉ chars) : splitLast chars = ([], chars) := by
  rw [splitLast, span_reverse_of_notMem single]
  simp

theorem splitLast_append {back : List Char} (single : '/' ∉ back) (front : List Char) :
    splitLast (front ++ '/' :: back) = (front ++ ['/'], back) := by
  rw [splitLast, span_reverse_append single]
  simp

theorem notMem_splitLast (chars : List Char) : '/' ∉ (splitLast chars).2 := by
  obtain single | ⟨front, back, rfl, single⟩ := cut_at_last '/' chars
  · rwa [splitLast_of_notMem single]
  · rwa [splitLast_append single]

/-- What stands before a slash does not count for the last segment. -/
theorem splitLast_behind_slash (front back : List Char) :
    (splitLast (front ++ '/' :: back)).2 = (splitLast back).2 := by
  obtain single | ⟨middle, last, rfl, single⟩ := cut_at_last '/' back
  · rw [splitLast_append single, splitLast_of_notMem single]
  · rw [← List.cons_append, ← List.append_assoc, splitLast_append single, splitLast_append single]

/-- Where a path that is written out ends with a segment, this is its name. -/
theorem name_ofString {text : String} (segment : IsSegment (String.ofList (splitLast text.toList).2)) :
    (ofString text).name = (splitLast text.toList).2 := by
  have last : ∃ parts, partsOf text.toList = parts ++ [String.ofList (splitLast text.toList).2] := by
    generalize text.toList = chars at *
    have alone := segment.partsOf
    rw [String.toList_ofList] at alone
    obtain single | ⟨front, back, rfl, single⟩ := cut_at_last '/' chars
    · rw [splitLast_of_notMem single] at alone ⊢
      exact ⟨[], alone⟩
    · rw [splitLast_append single] at alone ⊢
      exact ⟨partsOf front, by rw [partsOf_append, alone]⟩
  obtain ⟨parts, cut⟩ := last
  simp [name, ofString, cut]

/-- A path has the name of what its segments end with. -/
theorem name_of_parts {next : FilePath} {front : List String} (parts : path.parts = front ++ next.parts)
    (filled : next.parts ≠ []) : path.name = next.name := by
  cases ended : next.parts.getLast? with
  | none => exact absurd (List.getLast?_eq_none_iff.mp ended) filled
  | some last => simp [name, parts, ended]

/-- A path that is continued has the name of what it is continued by. -/
theorem name_join {next : FilePath} (filled : next.parts ≠ []) : (path.join next).name = next.name := by
  unfold join
  split
  · rfl
  · exact name_of_parts rfl filled

theorem parts_append_ne_nil {next : String} (filled : (ofString next).parts ≠ []) :
    (path / next).parts ≠ [] := by
  change (path.join (ofString next)).parts ≠ []
  unfold join
  split
  · exact filled
  · exact List.append_ne_nil_of_right_ne_nil _ filled

/-! ## Suffixes -/

theorem cutAtDot_of_notMem (plain : '.' ∉ name) : cutAtDot name = (name, []) := by
  rw [cutAtDot, span_reverse_of_notMem plain]

theorem cutAtDot_append (plain : '.' ∉ extension) (stem : List Char) :
    cutAtDot (stem ++ '.' :: extension) = (stem, '.' :: extension) := by
  rw [cutAtDot, span_reverse_append plain]
  simp

theorem stemAndSuffix_append (filled : stem ≠ []) (more : extension ≠ []) (plain : '.' ∉ extension) :
    stemAndSuffix (stem ++ '.' :: extension) = (stem, '.' :: extension) := by
  rw [stemAndSuffix, cutAtDot_append plain]
  split <;> simp_all

/-- The extension of a path is that of its last segment. -/
theorem splitExtension_behind_slash {back : List Char} (single : '/' ∉ back) (front : List Char) :
    splitExtension (front ++ '/' :: back) =
      (front ++ '/' :: (splitExtension back).1, (splitExtension back).2) := by
  simp [splitExtension, splitLast_append single, splitLast_of_notMem single]

theorem dropWhile_dots_ne (chars rest : List Char) : chars.dropWhile (· == '.') ≠ '.' :: rest := by
  intro same
  have other := List.head?_dropWhile_not (· == '.') chars
  simp [same] at other

/-- An extension that is put behind a segment is its extension, unless the segment is made of dots. -/
theorem splitExtension_append (single : '/' ∉ stem) (plain : '.' ∉ extension) (within : '/' ∉ extension) :
    splitExtension (stem ++ '.' :: extension) =
      if stem.all (· == '.') then (stem ++ '.' :: extension, []) else (stem, '.' :: extension) := by
  have whole : '/' ∉ stem ++ '.' :: extension := by simp [single, within]
  rw [splitExtension, splitLast_of_notMem whole]
  by_cases dots : stem.all (· == '.') = true
  · have all : ∀ c ∈ stem, (c == '.') = true := List.all_eq_true.mp dots
    have rest : extension.takeWhile (· == '.') = [] ∧ extension.dropWhile (· == '.') = extension := by
      cases extension with
      | nil => exact ⟨rfl, rfl⟩
      | cons c chars =>
        have other : ¬ (c == '.') = true := by
          rw [beq_iff_eq]
          rintro rfl
          exact plain List.mem_cons_self
        exact ⟨List.takeWhile_cons_of_neg other, List.dropWhile_cons_of_neg other⟩
    simp [List.dropWhile_append_of_pos all, List.takeWhile_append_of_pos all, rest,
      cutAtDot_of_notMem plain, dots]
  · have filled : stem.dropWhile (· == '.') ≠ [] := by
      rw [Ne, List.dropWhile_eq_nil_iff, ← List.all_eq_true]
      exact dots
    have behind : (stem ++ '.' :: extension).dropWhile (· == '.') =
        stem.dropWhile (· == '.') ++ '.' :: extension := by
      rw [List.dropWhile_append, if_neg (by simpa using filled)]
    have front : (stem ++ '.' :: extension).takeWhile (· == '.') = stem.takeWhile (· == '.') := by
      have whole := List.takeWhile_append_dropWhile (p := (· == '.')) (l := stem ++ '.' :: extension)
      rw [behind, ← List.append_assoc] at whole
      exact List.append_cancel_right
        ((List.append_cancel_right whole).trans List.takeWhile_append_dropWhile.symm)
    simp [behind, front, cutAtDot_append plain, dots]

/-- What has an extension has a stem before it. -/
theorem stem_ne_nil (extended : (splitExtension chars).2 ≠ []) : (splitExtension chars).1 ≠ [] := by
  rw [splitExtension] at extended ⊢
  obtain plain | ⟨stem, back, ended, plain⟩ :=
    cut_at_last '.' ((splitLast chars).2.dropWhile (· == '.'))
  · simp [cutAtDot_of_notMem plain] at extended
  · have filled : stem ≠ [] := by
      rintro rfl
      exact dropWhile_dots_ne _ _ ended
    simp [ended, cutAtDot_append plain, filled]

/-- The extension of a last segment is the suffix of every name that ends with the segment, if there is
anything between its dot and the end. -/
theorem suffix_of_extension (single : '/' ∉ chars) {extension : List Char}
    (cut : (splitExtension chars).2 = '.' :: extension) (more : extension ≠ []) (front : List Char) :
    (stemAndSuffix (front ++ chars)).2 = '.' :: extension := by
  rw [splitExtension, splitLast_of_notMem single] at cut
  obtain plain | ⟨stem, back, ended, plain⟩ := cut_at_last '.' (chars.dropWhile (· == '.'))
  · simp [cutAtDot_of_notMem plain] at cut
  · simp only [ended, cutAtDot_append plain, List.cons.injEq, true_and] at cut
    obtain rfl := cut
    have filled : stem ≠ [] := by
      rintro rfl
      exact dropWhile_dots_ne _ _ ended
    rw [← List.takeWhile_append_dropWhile (p := (· == '.')) (l := chars), ended, ← List.append_assoc,
      ← List.append_assoc, stemAndSuffix_append (by simp [filled]) more plain]

/-- A name with a suffix is a segment. -/
theorem isSegment_of_suffix (single : '/' ∉ name) (suffixed : (stemAndSuffix name).2 ≠ []) :
    IsSegment (String.ofList name) where
  filled empty := by
    obtain rfl : name = [] := by simpa using congrArg String.toList empty
    exact suffixed rfl
  moving dot := by
    obtain rfl : name = ['.'] := by simpa using congrArg String.toList dot
    exact suffixed rfl
  single := by simpa using single

/-- A path without segments has no suffix. -/
theorem lowerSuffix_of_parts (empty : path.parts = []) : path.lowerSuffix = "" := by
  have nameless : path.name = [] := by simp [FilePath.name, empty]
  rw [lowerSuffix, suffix, nameless]
  decide +kernel

/-- Whether a file is watched depends on its name alone. -/
theorem isWatchedFile_of_name {other : FilePath} (same : path.name = other.name) :
    isWatchedFile path = isWatchedFile other := by
  simp only [isWatchedFile, lowerSuffix, suffix, same]

end EmberAssist.FilePath
