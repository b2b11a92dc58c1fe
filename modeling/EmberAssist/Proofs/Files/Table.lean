import EmberAssist.Files.Source
import EmberAssist.Proofs.Path

/-! What a table of files tells before and after one of the files is written or removed. -/
namespace EmberAssist

variable {key : String} {before after : FileSource}

/-- Two sources differ at most in the file that is written as a key. -/
structure FileSource.DifferAt (key : String) (before after : FileSource) : Prop where
  text : ∀ {path : FilePath}, path.text ≠ key → before.read path = after.read path
  listing : ∀ (directory : FilePath) (keep : String → Bool),
    (∀ entry, directory.textWithSlash ++ entry = key → keep entry = false) →
      (before.list directory).filter keep = (after.list directory).filter keep

namespace FileTable

variable {table : FileTable} {directory path : FilePath} {entry : String} {keep : String → Bool}

theorem below?_eq_some : below? directory key = some entry ↔ directory.textWithSlash ++ entry = key := by
  simp only [below?, Option.map_eq_some_iff, Text.after?_eq_some_iff]
  constructor
  · rintro ⟨rest, spelled, rfl⟩
    exact String.toList_inj.mp (by rw [String.toList_append, String.toList_ofList, spelled])
  · rintro rfl
    exact ⟨entry.toList, String.toList_append, String.ofList_toList⟩

/-- A file is left out of a listing if all names for it are. -/
theorem filter_below? (left : ∀ entry, directory.textWithSlash ++ entry = key → keep entry = false) :
    (below? directory key).filter keep = none :=
  Option.filter_eq_none_iff.mpr fun entry found => by simp [left entry (below?_eq_some.mp found)]

/-- Some entries of a sorted listing are the sorted listing of these entries. -/
theorem filter_mergeSort (listing : List String) :
    (listing.mergeSort (· ≤ ·)).filter keep = (listing.filter keep).mergeSort (· ≤ ·) := by
  have sorted (listing : List String) :
      (listing.mergeSort fun a b => decide (a ≤ b)).Pairwise fun a b => decide (a ≤ b) = true :=
    List.pairwise_mergeSort (by simpa using fun _ _ _ => String.le_trans)
      (by simpa using String.le_total) listing
  refine List.Perm.eq_of_pairwise (fun a b _ _ => ?_) ((sorted listing).filter keep) (sorted _) ?_
  · simpa using fun ascending descending => String.le_antisymm ascending descending
  · exact ((List.mergeSort_perm listing _).filter keep).trans (List.mergeSort_perm _ _).symm

theorem filter_list : (table.list directory).filter keep =
    (table.entries.filterMap fun (path, _) => (below? directory path).filter keep).mergeSort
      (· ≤ ·) := by
  rw [list, filter_mergeSort, List.filter_filterMap]

/-- A file that is removed is missed nowhere but in its own place. -/
theorem differAt_erase (table : FileTable) (key : String) :
    FileSource.DifferAt key table.source (table.erase key).source where
  text {path} other := by
    change table.read path = (table.erase key).read path
    rw [read, read, erase, List.find?_filter]
    congr 2
    funext entry
    by_cases here : entry.1 = path.text <;> simp [here, other]
  listing directory keep left := by
    change (table.list directory).filter keep = ((table.erase key).list directory).filter keep
    rw [filter_list, filter_list, erase, List.filterMap_filter]
    congr 2
    funext entry
    by_cases here : entry.1 = key
    · simp [here, filter_below? left]
    · simp [here]

/-- A file that is written is seen nowhere but in its own place. -/
theorem differAt_insert (table : FileTable) (key : String) (text : Option String) :
    FileSource.DifferAt key table.source (table.insert key text).source where
  text {path} other := by
    rw [(differAt_erase table key).text other]
    change (table.erase key).read path = (table.insert key text).read path
    rw [read, read, insert, List.find?_cons_of_neg (by simpa using Ne.symm other)]
  listing directory keep left := by
    rw [(differAt_erase table key).listing directory keep left]
    change ((table.erase key).list directory).filter keep =
      ((table.insert key text).list directory).filter keep
    simp only [filter_list, insert, List.filterMap_cons, filter_below? left]

end FileTable

end EmberAssist
