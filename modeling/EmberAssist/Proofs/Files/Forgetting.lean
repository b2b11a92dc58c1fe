import EmberAssist.Proofs.Files.Reading
import EmberAssist.Proofs.Files.Table

/-! What a cache forgets when paths are said to have changed: the texts of these paths, and the listings
of the directories that they are in. That is all that a change of these files can make out of date. -/
namespace EmberAssist

variable {key : String} {path directory : FilePath}

/-- A path that is absolute, and no root itself. -/
def FilePath.isPlace (path : FilePath) : Bool := path.isAbsolute && !path.parts.isEmpty

theorem FilePath.isPlace_iff : path.isPlace = true ↔ path.isAbsolute = true ∧ path.parts ≠ [] := by
  simp only [isPlace, Bool.and_eq_true, Bool.not_eq_true', List.isEmpty_eq_false_iff]

namespace FileCache

variable {cache : FileCache} {paths : List FilePath}

/-- A directory is listed with whatever is written below it. -/
theorem isListedIn_of_below {entry : String} (place : directory.isPlace = true) :
    isListedIn directory (.ofString (directory.textWithSlash ++ entry)) = true := by
  obtain ⟨absolute, filled⟩ := FilePath.isPlace_iff.mp place
  have root : (FilePath.ofString (directory.textWithSlash ++ entry)).root = directory.root := by
    rw [FilePath.root_ofString, String.toList_append, FilePath.rootOf_below absolute filled]
  have parts : (FilePath.ofString (directory.textWithSlash ++ entry)).parts =
      directory.parts ++ FilePath.partsOf entry.toList := by
    rw [FilePath.parts_ofString, String.toList_append, FilePath.partsOf_below absolute]
  simp only [isListedIn, Bool.or_eq_true, beq_iff_eq, List.contains_iff_mem]
  by_cases here : FilePath.partsOf entry.toList = []
  · exact .inl (FilePath.ext root.symm (by rw [parts, here, List.append_nil]))
  · exact .inr (FilePath.mem_parents.mpr ⟨root.symm, _, here, parts⟩)

/-! ## What is forgotten -/

theorem lookup_filter {α β : Type} [BEq α] [LawfulBEq α] (keep : α → Bool) (key : α)
    (entries : List (α × β)) : (entries.filter fun (key, _) => keep key).lookup key =
      if keep key then entries.lookup key else none := by
  induction entries with
  | nil => simp
  | cons entry entries ih =>
    obtain ⟨other, value⟩ := entry
    by_cases same : key = other
    · subst same
      cases kept : keep key <;> simp [kept, ih]
    · have apart : (key == other) = false := beq_false_of_ne same
      cases kept : keep other <;> simp [kept, ih, List.lookup_cons, apart]

theorem text?_invalidateAll {text : Option String}
    (kept : (cache.invalidateAll paths).text? path = some text) :
    cache.text? path = some text ∧ path ∉ paths := by
  induction paths generalizing cache with
  | nil => exact ⟨kept, List.not_mem_nil⟩
  | cons first paths ih =>
    obtain ⟨kept, free⟩ := ih kept
    rw [text?, invalidate, lookup_filter (· != first)] at kept
    split at kept
    · rename_i apart
      exact ⟨kept, by simp_all⟩
    · cases kept

theorem listing?_invalidateAll {listing : List String}
    (kept : (cache.invalidateAll paths).listing? directory = some listing) :
    cache.listing? directory = some listing ∧ ∀ path ∈ paths, isListedIn directory path = false := by
  induction paths generalizing cache with
  | nil => exact ⟨kept, nofun⟩
  | cons first paths ih =>
    obtain ⟨kept, free⟩ := ih kept
    rw [listing?, invalidate, lookup_filter fun directory => !isListedIn directory first] at kept
    split at kept
    · rename_i apart
      exact ⟨kept, by simp_all⟩
    · cases kept

end FileCache

/-! ## What is out of date -/

namespace FileAccess

variable {access : FileAccess} {after : FileSource} {interest : Interest}
variable {changed left paths : List FilePath}

/-- After a change of a file the cache reflects what it did except where that depends on the file, if the
file is found under its own path and in directories that it is listed in. -/
theorem ReflectsBut.change_file (reflects : access.ReflectsBut interest changed)
    (differ : FileSource.DifferAt key access.source after)
    (found : ∀ {path}, interest.text path = true → path.text = key → .ofString key = path)
    (listed : ∀ {directory entry}, interest.entry directory entry = true →
      directory.textWithSlash ++ entry = key →
        FileCache.isListedIn directory (.ofString key) = true) :
    { access with source := after }.ReflectsBut interest (.ofString key :: changed) where
  text kept cached matters free := by
    rw [List.mem_cons, not_or] at free
    have read := reflects.text kept cached matters free.2
    exact read.trans (differ.text fun spelled => free.1 (found matters spelled).symm)
  listing {cache directory listing} kept cached free := by
    rw [List.forall_mem_cons] at free
    have told := reflects.listing kept cached free.2
    refine told.trans (differ.listing directory _ fun entry spelled => ?_)
    rw [Bool.eq_false_iff]
    intro matters
    have within := listed matters spelled
    rw [free.1] at within
    cases within

/-- Once all is forgotten that depends on some paths, the cache reflects what matters except where that
depends on the paths that have changed and are left. -/
theorem ReflectsBut.invalidate (reflects : access.ReflectsBut interest changed)
    (covered : ∀ path ∈ changed, path ∈ paths ∨ path ∈ left) :
    (access.invalidate paths).ReflectsBut interest left where
  text kept found matters free := by
    obtain ⟨cache, before, rfl⟩ := Option.map_eq_some_iff.mp kept
    obtain ⟨found, forgotten⟩ := FileCache.text?_invalidateAll found
    exact reflects.text before found matters fun member =>
      (covered _ member).elim forgotten free
  listing kept found free := by
    obtain ⟨cache, before, rfl⟩ := Option.map_eq_some_iff.mp kept
    obtain ⟨found, forgotten⟩ := FileCache.listing?_invalidateAll found
    exact reflects.listing before found fun path member =>
      (covered path member).elim (forgotten path) (free path)

end FileAccess

end EmberAssist
