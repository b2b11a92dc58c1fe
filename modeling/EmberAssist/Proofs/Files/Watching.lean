import EmberAssist.Files.Watch
import EmberAssist.Proofs.Files.Forgetting

/-! Files that are watched. A cache that forgets what depends on the watched files that have changed
reflects the texts of watched files again, and the listings of directories as far as watched files are
listed. -/
namespace EmberAssist

variable {key : String} {before after : FileSource} {path directory : FilePath}

/-- The files that are watched, and the listings of directories as far as these are listed. -/
def Interest.watched : Interest where
  text := isWatchedFile
  entry directory entry :=
    directory.isPlace && isWatchedFile (.ofString (directory.textWithSlash ++ entry))

/-! ## What a change touches -/

/-- A change of a file that is not watched touches nothing that is. -/
theorem FileSource.DifferAt.agrees (differ : DifferAt key before after)
    (unwatched : isWatchedFile (.ofString key) = false) : before.Agrees .watched after where
  text {path} matters := by
    simp only [Interest.watched] at matters
    refine differ.text fun same => ?_
    rw [← same, FilePath.ofString_text, matters] at unwatched
    cases unwatched
  listing directory := differ.listing directory _ fun entry spelled => by
    simp [Interest.watched, spelled, unwatched]

namespace FileAccess

variable {access : FileAccess} {changed paths : List FilePath} {interest : Interest}

/-- After a change the cache reflects what it did except where that depends on the file, if the file is
watched. -/
theorem ReflectsBut.change (reflects : access.ReflectsBut .watched (changed.filter isWatchedFile))
    (differ : FileSource.DifferAt key access.source after) :
    { access with source := after }.ReflectsBut .watched
      ((FilePath.ofString key :: changed).filter isWatchedFile) := by
  cases watched : isWatchedFile (.ofString key) with
  | false =>
    have agree := differ.agrees watched
    rw [List.filter_cons_of_neg (by simp [watched])]
    exact {
      text := fun kept found matters free =>
        (reflects.text kept found matters free).trans (agree.text matters)
      listing := fun kept found free => (reflects.listing kept found free).trans (agree.listing _) }
  | true =>
    rw [List.filter_cons_of_pos watched]
    refine reflects.change_file differ (fun {path} _ spelled => ?_) ?_
    · rw [← spelled, FilePath.ofString_text]
    · rintro directory entry matters rfl
      simp only [Interest.watched, Bool.and_eq_true] at matters
      exact FileCache.isListedIn_of_below matters.1

end FileAccess

/-- What a watcher tells on of a batch: the files in it that are watched. -/
theorem Watch.mem_relevant {batch : List FilePath} :
    path ∈ relevant batch ↔ path ∈ batch ∧ isWatchedFile path = true := by
  rw [relevant, List.mem_mergeSort, List.mem_eraseDups, List.mem_filter]

end EmberAssist
