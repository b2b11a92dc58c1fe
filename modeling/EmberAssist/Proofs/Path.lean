import EmberAssist.FilePath
import EmberAssist.Proofs.Text

/-! Paths as they are written. What is read of a text are its segments, and a path is read back from the way
it is written. -/
namespace EmberAssist.FilePath

open Text

variable {path directory : FilePath} {text part : String} {parts : List String}
variable {front back chars : List Char}

/-! ## Segments of a text -/

theorem partsOf_append (front back : List Char) :
    partsOf (front ++ '/' :: back) = partsOf front ++ partsOf back := by
  simp only [partsOf, splitOn_append, List.filter_append, List.map_append]

@[simp]
theorem partsOf_nil : partsOf [] = [] := by simp [partsOf, splitOn]

@[simp]
theorem partsOf_slash (back : List Char) : partsOf ('/' :: back) = partsOf back := by
  simpa using partsOf_append [] back

theorem IsSegment.partsOf (segment : IsSegment part) : partsOf part.toList = [part] := by
  have filled : part.toList ≠ [] := by simpa using segment.filled
  have moving : part.toList ≠ ['.'] := fun dot =>
    segment.moving (String.toList_inj.mp (by rw [dot]; rfl))
  rw [FilePath.partsOf, splitOn_of_notMem segment.single]
  simp [filled, moving]

theorem toList_intercalate_cons (first second : String) (parts : List String) :
    ("/".intercalate (first :: second :: parts)).toList =
      first.toList ++ '/' :: ("/".intercalate (second :: parts)).toList := by
  simp [String.toList_intercalate, List.intercalate]

theorem toList_intercalate_append (first last : String) (parts rest : List String) :
    ("/".intercalate (first :: parts ++ last :: rest)).toList =
      ("/".intercalate (first :: parts)).toList ++ '/' :: ("/".intercalate (last :: rest)).toList := by
  induction parts generalizing first with
  | nil => simp
  | cons second parts ih =>
    rw [List.cons_append, List.cons_append, toList_intercalate_cons, ← List.cons_append, ih,
      toList_intercalate_cons, List.append_assoc, List.cons_append]

theorem partsOf_intercalate (segments : ∀ part ∈ parts, IsSegment part) :
    partsOf ("/".intercalate parts).toList = parts := by
  induction parts with
  | nil => simp
  | cons first parts ih =>
    have lead := (segments first List.mem_cons_self).partsOf
    cases parts with
    | nil => simpa using lead
    | cons second parts =>
      rw [toList_intercalate_cons, partsOf_append, lead,
        ih fun part member => segments part (List.mem_cons_of_mem _ member)]
      rfl

/-- What is written of segments does not begin with a slash. -/
theorem head?_intercalate (segments : ∀ part ∈ parts, IsSegment part) :
    ("/".intercalate parts).toList.head? ≠ some '/' := by
  cases parts with
  | nil => simp
  | cons first parts =>
    obtain ⟨filled, -, single⟩ := segments first List.mem_cons_self
    obtain ⟨c, rest, spelled⟩ := List.exists_cons_of_ne_nil (l := first.toList) (by simpa using filled)
    have plain : c ≠ '/' := by
      rintro rfl
      simp [spelled] at single
    cases parts with
    | nil => simpa [spelled] using plain
    | cons second parts => simpa [toList_intercalate_cons, spelled] using plain

/-! ## Reading and writing -/

theorem toList_text (absolute : path.isAbsolute = true) :
    path.text.toList = path.root.text.toList ++ ("/".intercalate path.parts).toList := by
  have away : path.root ≠ .working := by simpa [isAbsolute] using absolute
  simp [text, away]

theorem isAbsolute_ofString (slashed : text.toList.head? = some '/') :
    (ofString text).isAbsolute = true := by
  obtain ⟨rest, spelled⟩ : ∃ rest, text.toList = '/' :: rest := by
    cases spelled : text.toList with
    | nil => simp [spelled] at slashed
    | cons c rest => exact ⟨rest, by simpa [spelled] using slashed⟩
  change (rootOf text.toList != .working) = true
  rw [spelled]
  unfold rootOf
  split <;> simp_all

theorem head?_text (absolute : path.isAbsolute = true) : path.text.toList.head? = some '/' := by
  rw [toList_text absolute]
  cases begun : path.root with
  | working => simp [isAbsolute, begun] at absolute
  | root | doubleRoot => simp [PathRoot.text]

/-- A path is read back from how it is written. -/
theorem ofString_text (path : FilePath) : ofString path.text = path := by
  obtain ⟨start, parts, normal⟩ := path
  have parted := partsOf_intercalate normal
  have begun := head?_intercalate normal
  generalize written : ("/".intercalate parts).toList = chars at parted begun
  cases start with
  | working =>
    by_cases nothing : parts = []
    · subst nothing
      simp [ofString, text, rootOf, partsOf, splitOn]
    · have spelled : (FilePath.mk .working parts normal).text.toList = chars := by
        simp [text, nothing, PathRoot.text, written]
      simp only [ofString, spelled, parted, mk.injEq, and_true]
      cases chars with
      | nil => rfl
      | cons c rest => simp_all [rootOf]
  | root =>
    have spelled := toList_text (show (FilePath.mk .root parts normal).isAbsolute = true from rfl)
    cases chars <;> simp_all [ofString, PathRoot.text, rootOf]
  | doubleRoot =>
    have spelled := toList_text (show (FilePath.mk .doubleRoot parts normal).isAbsolute = true from rfl)
    cases chars <;> simp_all [ofString, PathRoot.text, rootOf]

/-! ## Paths from paths -/

section
variable {next : FilePath} (relative : next.isAbsolute = false)
include relative

theorem root_join_of_relative : (path.join next).root = path.root := by
  rw [join, if_neg (by simp [relative])]

theorem parts_join_of_relative : (path.join next).parts = path.parts ++ next.parts := by
  rw [join, if_neg (by simp [relative])]

end

theorem isAbsolute_append (absolute : path.isAbsolute = true) (next : String) :
    (path / next).isAbsolute = true := by
  change (path.join (ofString next)).isAbsolute = true
  unfold FilePath.join
  split
  · assumption
  · exact absolute

/-- A path that is absolute counts alone, from wherever it is read. -/
theorem append_text (absolute : path.isAbsolute = true) (directory : FilePath) :
    directory / path.text = path := by
  change directory.join (ofString path.text) = path
  rw [ofString_text, FilePath.join, if_pos absolute]

/-- The directories above a path are those whose segments it begins with. -/
theorem mem_parents : directory ∈ path.parents ↔
    directory.root = path.root ∧ ∃ rest, rest ≠ [] ∧ path.parts = directory.parts ++ rest := by
  rw [parents, List.mem_pmap]
  constructor
  · rintro ⟨above, member, rfl⟩
    exact ⟨rfl, mem_initsAbove.mp member⟩
  · rintro ⟨root, above⟩
    exact ⟨directory.parts, mem_initsAbove.mpr above, FilePath.ext root.symm rfl⟩

theorem isAbsolute_of_mem_parents (absolute : path.isAbsolute = true)
    (above : directory ∈ path.parents) : directory.isAbsolute = true := by
  rw [isAbsolute, (mem_parents.mp above).1]
  exact absolute

/-! ## Below a directory -/

theorem toList_textWithSlash_of_ne_nil (filled : directory.parts ≠ []) :
    directory.textWithSlash.toList = directory.text.toList ++ ['/'] := by
  simp [textWithSlash, filled]

theorem textWithSlash_of_eq_nil (absolute : directory.isAbsolute = true) (empty : directory.parts = []) :
    directory.textWithSlash = "/" := by
  have away : directory.root ≠ .working := by simpa [isAbsolute] using absolute
  simp [textWithSlash, away, empty]

/-- What is written below a directory has the segments of the directory first. -/
theorem partsOf_below (absolute : directory.isAbsolute = true) (rest : List Char) :
    partsOf (directory.textWithSlash.toList ++ rest) = directory.parts ++ partsOf rest := by
  by_cases empty : directory.parts = []
  · simp [textWithSlash_of_eq_nil absolute empty, empty]
  · have written := congrArg FilePath.parts (ofString_text directory)
    rw [toList_textWithSlash_of_ne_nil empty, List.append_assoc, List.singleton_append,
      partsOf_append, ← written]
    rfl

private theorem rootOf_append (filled : front.head? ≠ none) (plain : front.head? ≠ some '/')
    (start : PathRoot) (rest : List Char) :
    rootOf (start.text.toList ++ (front ++ rest)) = start := by
  obtain ⟨c, front, rfl⟩ := List.exists_cons_of_ne_nil (l := front) (by simpa using filled)
  cases start <;> simp_all [rootOf, PathRoot.text]

/-- What is written below a directory that is not a root begins where the directory begins. -/
theorem rootOf_below (absolute : directory.isAbsolute = true) (filled : directory.parts ≠ [])
    (rest : List Char) :
    rootOf (directory.textWithSlash.toList ++ rest) = directory.root := by
  rw [toList_textWithSlash_of_ne_nil filled, toList_text absolute, List.append_assoc,
    List.append_assoc]
  refine rootOf_append ?_ (head?_intercalate directory.normal) _ _
  intro none
  have nothing := partsOf_intercalate directory.normal
  rw [List.head?_eq_none_iff.mp none] at nothing
  exact filled nothing.symm

/-- A path is written below the directories above it. -/
theorem textWithSlash_prefix (absolute : path.isAbsolute = true) (above : directory ∈ path.parents) :
    directory.textWithSlash.toList <+: path.text.toList := by
  have absolute' := isAbsolute_of_mem_parents absolute above
  obtain ⟨start, parts, normal⟩ := path
  obtain ⟨sameRoot, rest, filled, cut⟩ := mem_parents.mp above
  obtain ⟨last, rest, rfl⟩ := List.exists_cons_of_ne_nil filled
  cases begun : directory.parts with
  | nil =>
    rw [textWithSlash_of_eq_nil absolute' begun, toList_text absolute]
    cases start with
    | working => cases absolute
    | root | doubleRoot => simp [PathRoot.text]
  | cons first parts =>
    have written := toList_intercalate_append first last parts rest
    rw [toList_textWithSlash_of_ne_nil (by simp [begun]), toList_text absolute', toList_text absolute,
      sameRoot, cut, begun, written, List.append_assoc, List.prefix_append_right_inj,
      List.prefix_append_right_inj]
    exact ⟨_, rfl⟩

end EmberAssist.FilePath
