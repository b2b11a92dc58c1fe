import EmberAssist.Proofs.Files.Watching
import EmberAssist.Proofs.Layout.Folders
import EmberAssist.Proofs.Project.Reading

/-! What is read of a project is watched: its environment, its modules and the files of its phrases. -/
namespace EmberAssist

open FilePath Text

variable {layout : ProjectLayout} {path directory : FilePath} {chars : List Char}

namespace Layout

/-! ## Modules -/

/-- The last segment does not change where backslashes count as slashes, but may lose its front. -/
theorem splitLast_withSlashes (chars : List Char) :
    ∃ front, (splitLast chars).2 = front ++ (splitLast (withSlashes chars)).2 := by
  have whole {last : List Char} (single : '/' ∉ last) :
      ∃ front, last = front ++ (splitLast (withSlashes last)).2 := by
    obtain plain | ⟨front, back, rfl, plain⟩ := cut_at_last '\\' last
    · exact ⟨[], by rw [withSlashes_of_notMem plain, splitLast_of_notMem single, List.nil_append]⟩
    · have single : '/' ∉ back := fun member => single (by simp [member])
      refine ⟨front ++ ['\\'], ?_⟩
      rw [withSlashes_append, if_pos rfl, withSlashes_of_notMem plain, splitLast_append single]
      simp
  obtain single | ⟨front, back, rfl, single⟩ := cut_at_last '/' chars
  · rw [splitLast_of_notMem single]
    exact whole single
  · rw [splitLast_append single, withSlashes_append_slash, splitLast_behind_slash]
    exact whole single

/-- A path below the root of a project has the last segment that it has as a whole. -/
theorem splitLast_relativeTo (root path : List Char) :
    (splitLast (relativeTo root path)).2 = (splitLast (withSlashes path)).2 := by
  have led (path : List Char) : (splitLast (withLeadingSlash path)).2 = (splitLast path).2 := by
    unfold withLeadingSlash
    split
    · rfl
    · exact splitLast_behind_slash [] path
  unfold relativeTo
  simp only
  split
  · rename_i inside
    simp only [Bool.and_eq_true] at inside
    obtain ⟨rest, cut⟩ := startsWith_iff.mp inside.2
    rw [led, ← cut, List.append_assoc, List.drop_left, List.singleton_append, splitLast_behind_slash]
    exact splitLast_behind_slash [] rest
  · exact led _

/-- A module has one of the extensions of scripts and templates. -/
theorem extension_of_classify {path : String} (found : (layout.classify path).isSome = true) :
    (splitExtension (splitLast (withSlashes path.toList)).2).2 ∈ moduleExtensions := by
  obtain ⟨folder, base, file⟩ := exists_isFile layout.root.toList path.toList
  have last : (splitLast (withSlashes path.toList)).2 = base := by
    rw [← splitLast_relativeTo (trimRoot layout.root.toList), file.place, splitLast_append file.single]
  rw [classify_eq, Option.isSome_map, plainModule?_of_isFile file] at found
  rw [last]
  by_contra foreign
  rw [if_neg foreign] at found
  cases found

end Layout

theorem isWatchedFile_of_suffix (extension : path.suffix ∈ Layout.moduleExtensions) :
    isWatchedFile path = true := by
  simp only [Layout.moduleExtensions, List.mem_cons, List.not_mem_nil, or_false] at extension
  unfold isWatchedFile lowerSuffix
  rcases extension with same | same | same <;> rw [same] <;> decide +kernel

/-- A name that ends with the segment of a module has the suffix of the module. -/
theorem suffix_of_moduleExtension {last : List Char} (single : '/' ∉ last)
    (member : (splitExtension last).2 ∈ Layout.moduleExtensions) (front : List Char) :
    (stemAndSuffix (front ++ last)).2 ∈ Layout.moduleExtensions := by
  obtain ⟨extension, cut, more, -⟩ := Layout.exists_letters member
  rwa [suffix_of_extension single cut more front, ← cut]

/-- A file whose last segment has the suffix of scripts or templates is watched. -/
theorem isWatchedFile_of_splitLast {file : String}
    (suffixed : (stemAndSuffix (splitLast file.toList).2).2 ∈ Layout.moduleExtensions) :
    isWatchedFile (.ofString file) = true := by
  have segment := isSegment_of_suffix (notMem_splitLast file.toList) fun none => by
    rw [none] at suffixed
    exact absurd suffixed (by decide)
  refine isWatchedFile_of_suffix ?_
  rwa [FilePath.suffix, name_ofString segment]

/-- The last segment of a module has the suffix of scripts or templates. -/
theorem suffix_of_classify {front file : String}
    (found : (layout.classify (front ++ "/" ++ file)).isSome = true) :
    (stemAndSuffix (splitLast file.toList).2).2 ∈ Layout.moduleExtensions := by
  have slashed : (front ++ "/" ++ file).toList = front.toList ++ '/' :: file.toList := by simp
  have extension := Layout.extension_of_classify found
  rw [slashed, Layout.withSlashes_append_slash, splitLast_behind_slash] at extension
  obtain ⟨before, whole⟩ := Layout.splitLast_withSlashes file.toList
  rw [whole]
  exact suffix_of_moduleExtension (notMem_splitLast _) extension before

/-- A file that is a module is watched, wherever it is found. -/
theorem isWatchedFile_of_classify {front file : String}
    (found : (layout.classify (front ++ "/" ++ file)).isSome = true) (filled : directory.parts ≠ []) :
    isWatchedFile (.ofString (directory.textWithSlash ++ file)) = true := by
  have ended : (splitLast (directory.textWithSlash ++ file).toList).2 = (splitLast file.toList).2 := by
    rw [String.toList_append, toList_textWithSlash_of_ne_nil filled, List.append_assoc,
      List.singleton_append, splitLast_behind_slash]
  refine isWatchedFile_of_splitLast ?_
  rw [ended]
  exact suffix_of_classify found

/-- All modules of a layout are watched. -/
theorem modulesMatter_watched (absolute : (FilePath.ofString layout.root).isAbsolute = true) :
    Project.ModulesMatter .watched layout := by
  intro directory member file found
  have named : ∀ directory ∈ Project.sourceDirectories, (FilePath.ofString directory).parts ≠ [] := by
    decide +kernel
  have filled := @parts_append_ne_nil (.ofString layout.root) _ (named directory member)
  simp only [Interest.watched, Bool.and_eq_true]
  exact ⟨isPlace_iff.mpr ⟨isAbsolute_append absolute directory, filled⟩,
    isWatchedFile_of_classify found filled⟩

/-- The root in a layout is absolute if the project's is. -/
theorem isAbsolute_layoutRoot {root : FilePath} (absolute : root.isAbsolute = true) (scripts : Script.Reader)
    (source : FileSource) :
    (FilePath.ofString ((Project.readAt scripts root).told source).layout.root).isAbsolute = true := by
  refine isAbsolute_ofString ?_
  change (Layout.ofEnvironment scripts root.text _).root.toList.head? = _
  rw [Layout.root_ofEnvironment, String.toList_ofList, Layout.withSlashes, List.head?_map, head?_text absolute]
  rfl

/-! ## The environment and the phrases -/

/-- The environment of a project is watched. -/
theorem environmentMatters_watched (root : FilePath) : Project.EnvironmentMatters .watched root := by
  have name : (Layout.environmentFile (.ofString root.text)).name =
      (FilePath.ofString "environment.js").name := name_join (by decide +kernel)
  have watched : isWatchedFile (.ofString "environment.js") = true := by decide +kernel
  simp [Project.EnvironmentMatters, Interest.watched, isWatchedFile_of_name name, watched]

/-- All files are watched that are read for the phrases below a directory. -/
theorem phrasesMatter_watched (place : directory.isPlace = true) :
    Phrase.PhrasesMatter .watched directory := by
  intro file phrases
  obtain ⟨absolute, -⟩ := isPlace_iff.mp place
  have watched : isWatchedFile (.ofString file) = true := by
    rw [isWatchedFile, phrases, Bool.or_true]
  have filled : (FilePath.ofString file).parts ≠ [] := by
    intro none
    rw [lowerSuffix_of_parts none] at phrases
    exact absurd phrases (by decide)
  constructor
  · have below : (FilePath.ofString (directory.textWithSlash ++ file)).parts =
        directory.parts ++ (FilePath.ofString file).parts := by
      rw [parts_ofString, String.toList_append, partsOf_below absolute]
      rfl
    simp only [Interest.watched, place, isWatchedFile_of_name (name_of_parts below filled), watched,
      Bool.and_self]
  · simp only [Interest.watched, isWatchedFile_of_name (name_join filled), watched]

end EmberAssist
