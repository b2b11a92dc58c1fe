import EmberAssist.Proofs.Project.Watching

/-! Which files can matter to completion, and which of them are watched. A file is looked at for its language, for
phrases, as a module, or as a component or a helper that is offered by its name, and each time its name is cut in
another way. They agree on all names but those that are nothing but an extension. -/
namespace EmberAssist

open FilePath Text

variable {file : String} {extension : List Char}

/-! ## Names that are offered -/

/-- A text that ends with an extension has a last segment that does. -/
theorem FilePath.exists_splitLast_append (single : '/' ∉ extension) (front : List Char) :
    ∃ stem, (splitLast (front ++ extension)).2 = stem ++ extension := by
  obtain free | ⟨above, stem, rfl, free⟩ := cut_at_last '/' front
  · have whole : '/' ∉ front ++ extension := by simp [free, single]
    exact ⟨front, by rw [splitLast_of_notMem whole]⟩
  · have whole : '/' ∉ stem ++ extension := by simp [free, single]
    exact ⟨stem, by rw [List.append_assoc, List.cons_append, splitLast_append whole]⟩

/-- A name that ends with the extension of a script or a template has it for its suffix, unless there is nothing
before the extension. -/
theorem FilePath.suffix_of_ending {stem : List Char} (member : extension ∈ Layout.moduleExtensions)
    (filled : stem ≠ []) : (stemAndSuffix (stem ++ extension)).2 = extension := by
  obtain ⟨letters, rfl, more, plain, -⟩ := Layout.exists_letters member
  rw [stemAndSuffix_append filled more plain]

namespace Completion

theorem exists_ending {extensions : List String} (offered : (label? extensions file).isSome = true) :
    ∃ extension ∈ extensions, ∃ front, file.toList = front ++ extension.toList := by
  unfold label? at offered
  split at offered
  · rename_i ends
    obtain ⟨extension, member, ending⟩ := List.any_eq_true.mp ends
    obtain ⟨front, cut⟩ := List.isSuffixOf_iff_suffix.mp ending
    exact ⟨extension, member, front, cut.symm⟩
  · cases offered

/-- A file that is offered by its name ends with the extension of a script or a template. -/
theorem exists_moduleExtension {extensions : List String} (offered : (label? extensions file).isSome = true)
    (known : ∀ extension ∈ extensions, extension.toList ∈ Layout.moduleExtensions) :
    ∃ extension ∈ Layout.moduleExtensions, ∃ stem, (splitLast file.toList).2 = stem ++ extension := by
  obtain ⟨extension, member, front, cut⟩ := exists_ending offered
  obtain ⟨letters, dotted, -, -, single, -⟩ := Layout.exists_letters (known extension member)
  have whole : '/' ∉ extension.toList := by simp [dotted, single]
  rw [cut]
  exact ⟨extension.toList, known extension member, exists_splitLast_append whole front⟩

end Completion

/-! ## Files that count -/

/-- A file counts, wherever it lies: it is in one of the languages, a reader is given it for phrases, or it
is a module in some project. -/
inductive Counts (reader : Phrase.Reader) (file : String) : Prop where
  | language (known : (Language.ofPath? file).isSome = true)
  | phrases (directory : FilePath) (isRead : Phrase.readFile reader directory file ≠ pure [])
  | appModule (classifier : PathClassifier) (front : String)
      (found : (classifier.classify (front ++ "/" ++ file)).isSome = true)

/-- A file is offered by its name, as a component or as a helper. -/
def IsOffered (file : String) : Prop :=
  (Completion.ofComponentFile? file).isSome = true ∨ (Completion.ofHelperFile? file).isSome = true

/-- The last segment of a file is an extension of scripts or templates and nothing else. -/
def IsBareExtension (file : String) : Prop := (splitLast file.toList).2 ∈ Layout.moduleExtensions

/-- A file that has a suffix of phrases is read for them, and no other file is. -/
theorem Phrase.readFile_ne_pure_iff (reader : Phrase.Reader) (directory : FilePath) :
    Phrase.readFile reader directory file ≠ pure [] ↔
      phraseSuffixes.contains (FilePath.ofString file).lowerSuffix = true := by
  constructor
  · intro isRead
    by_contra other
    refine isRead ?_
    simp only [readFile]
    rw [if_neg other]
  · intro suffix same
    -- The question for the text reaches the source, even if there is nothing to be read.
    let access := FileAccess.direct ⟨fun _ => [], fun _ => none⟩
    have asked : ((readFile reader directory file).run access).2.readCalls = 1 := by
      simp only [readFile]
      rw [if_pos suffix]
      rfl
    rw [same] at asked
    cases asked

/-- An extension alone begins with its dot, so that it is no suffix. -/
theorem isWatchedFile_of_isBareExtension (bare : IsBareExtension file) :
    isWatchedFile (.ofString file) = false := by
  have plain : ∀ extension ∈ Layout.moduleExtensions, String.ofList extension ≠ "" ∧
      String.ofList extension ≠ "." ∧ '/' ∉ extension ∧ (stemAndSuffix extension).2 = [] := by decide +kernel
  obtain ⟨filled, moving, single, none⟩ := plain _ bare
  have segment : IsSegment (String.ofList (splitLast file.toList).2) :=
    ⟨filled, moving, by rwa [String.toList_ofList]⟩
  have suffix : (FilePath.ofString file).lowerSuffix = "" := by
    rw [lowerSuffix, FilePath.suffix, name_ofString segment, none]
    rfl
  rw [isWatchedFile, suffix]
  decide

theorem isWatchedFile_of_label? {extensions : List String} (offered : (Completion.label? extensions file).isSome = true)
    (known : ∀ extension ∈ extensions, extension.toList ∈ Layout.moduleExtensions) (named : ¬ IsBareExtension file) :
    isWatchedFile (.ofString file) = true := by
  obtain ⟨extension, member, stem, cut⟩ := Completion.exists_moduleExtension offered known
  have filled : stem ≠ [] := by
    rintro rfl
    exact named (by rwa [IsBareExtension, cut])
  refine isWatchedFile_of_splitLast ?_
  rwa [cut, suffix_of_ending member filled]

theorem IsOffered.isWatchedFile (offered : IsOffered file) (named : ¬ IsBareExtension file) :
    isWatchedFile (.ofString file) = true := by
  rcases offered with component | helper
  · rw [Completion.ofComponentFile?, Option.isSome_map] at component
    exact isWatchedFile_of_label? component (by decide) named
  · rw [Completion.ofHelperFile?, Option.isSome_map] at helper
    exact isWatchedFile_of_label? helper (by decide) named

/-- Exactly those files are watched that count. A file that is offered by its name is one of them exactly if it is
called more than an extension. -/
theorem isWatchedFile_iff_counts (reader : Phrase.Reader) (file : String) :
    (isWatchedFile (.ofString file) = true ↔ Counts reader file) ∧
      (IsOffered file → (isWatchedFile (.ofString file) = true ↔ ¬ IsBareExtension file)) := by
  refine ⟨⟨fun watched => ?_, fun counts => ?_⟩, fun offered => ⟨fun watched bare => ?_, offered.isWatchedFile⟩⟩
  · rcases Bool.or_eq_true_iff.mp watched with known | phrases
    · exact .language known
    · exact .phrases (.top .root) ((Phrase.readFile_ne_pure_iff reader _).mpr phrases)
  · cases counts with
    | language known => exact Bool.or_eq_true_iff.mpr (.inl known)
    | phrases directory isRead =>
      exact Bool.or_eq_true_iff.mpr (.inr ((Phrase.readFile_ne_pure_iff reader directory).mp isRead))
    | appModule classifier front found => exact isWatchedFile_of_splitLast (suffix_of_classify found)
  · rw [isWatchedFile_of_isBareExtension bare] at watched
    cases watched

/-- A template without a name is offered as a component, and changes of it are not told on. -/
theorem unwatched_template_without_name :
    IsOffered ".hbs" ∧ isWatchedFile (.ofString ".hbs") = false :=
  ⟨.inl (by decide +kernel), by decide +kernel⟩

end EmberAssist
