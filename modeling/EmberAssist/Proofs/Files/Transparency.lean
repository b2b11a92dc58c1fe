import EmberAssist.Proofs.Files.Forgetting

/-! Files that change behind a cache. If each change is told to the cache before the next question, the
cache cannot be told from the files themselves: whatever is listed or read through it is what the files
hold at that moment (`answers_through_cache`). -/
namespace EmberAssist

/-- What is done with files: they are written and deleted, directories are listed, files are read, and
what has been read is forgotten, as far as it depends on some paths or altogether. -/
inductive FileEvent where
  | write (path : String) (text : Option String)
  | delete (path : String)
  | list (directory : String)
  | read (path : String)
  | invalidate (paths : List String)
  | forget
deriving DecidableEq, Repr

/-- What files answer: the paths below a directory, or a text if there is one. -/
inductive FileAnswer where
  | listing (paths : List String)
  | text (text : Option String)
deriving DecidableEq, Repr

variable {key : String} {path directory : FilePath} {files : FileTable} {changed : List FilePath}

/-! ## The files themselves -/

namespace FileTable

/-- The files after something has been done. -/
def next (files : FileTable) : FileEvent → FileTable
  | .write path text => files.insert path text
  | .delete path => files.erase path
  | .list _ | .read _ | .invalidate _ | .forget => files

/-- What the files answer at this moment, if they are asked. -/
def answer? (files : FileTable) : FileEvent → Option FileAnswer
  | .list directory => some (.listing (files.list (.ofString directory)))
  | .read path => some (.text (files.read (.ofString path)))
  | .write _ _ | .delete _ | .invalidate _ | .forget => none

/-- What the files answer one after another. -/
def answers (files : FileTable) : List FileEvent → List FileAnswer
  | [] => []
  | event :: events => (files.answer? event).toList ++ (files.next event).answers events

end FileTable

/-! ## The files through a cache -/

/-- Files, and what is kept of them by those who ask. -/
structure KeptFiles where
  files : FileTable
  access : FileAccess

namespace KeptFiles

variable {state : KeptFiles}

/-- Files of which nothing is kept yet. -/
def start (files : FileTable) : KeptFiles := ⟨files, .cached files.source⟩

/-- The files have become others. -/
def change (state : KeptFiles) (files : FileTable) : KeptFiles :=
  ⟨files, { state.access with source := files.source }⟩

/-- What becomes of files and of what is kept of them. -/
def next (state : KeptFiles) : FileEvent → KeptFiles
  | .write path text => state.change (state.files.insert path text)
  | .delete path => state.change (state.files.erase path)
  | .list directory => { state with access := (state.access.list (.ofString directory)).2 }
  | .read path => { state with access := (state.access.read (.ofString path)).2 }
  | .invalidate paths => { state with access := state.access.invalidate (paths.map .ofString) }
  | .forget => { state with access := state.access.forget }

/-- What is answered through the cache. -/
def answer? (state : KeptFiles) : FileEvent → Option FileAnswer
  | .list directory => some (.listing (state.access.list (.ofString directory)).1)
  | .read path => some (.text (state.access.read (.ofString path)).1)
  | .write _ _ | .delete _ | .invalidate _ | .forget => none

/-- What is answered through the cache one after another. -/
def answers (state : KeptFiles) : List FileEvent → List FileAnswer
  | [] => []
  | event :: events => (state.answer? event).toList ++ (state.next event).answers events

end KeptFiles

/-! ## Changes that are told -/

/-- Two slashes alone. All files are listed there, but none of them lies below it. -/
def FilePath.twoSlashes : FilePath := .top .doubleRoot

namespace FileEvent

/-- What is changed has a path that is written in normal form from the root on, with one slash in front, and
what is listed is not written as two slashes alone. -/
def isPlain : FileEvent → Bool
  | .write path _ | .delete path =>
    (FilePath.ofString path).root == .root && (FilePath.ofString path).text == path
  | .list directory => FilePath.ofString directory != .twoSlashes
  | .read _ | .invalidate _ | .forget => true

/-- The paths of changes that the cache has not been told of. -/
def untold (changed : List FilePath) : FileEvent → List FilePath
  | .write path _ | .delete path => .ofString path :: changed
  | .invalidate paths => changed.filter fun path => !(paths.map FilePath.ofString).contains path
  | .forget => []
  | .list _ | .read _ => changed

/-- Whether something may be done while the cache has not been told of some changes: all but asking. -/
def isDue (changed : List FilePath) : FileEvent → Bool
  | .list _ | .read _ => changed.isEmpty
  | .write _ _ | .delete _ | .invalidate _ | .forget => true

/-- Whether all changes are told before the next question. -/
def areDue (changed : List FilePath) : List FileEvent → Bool
  | [] => true
  | event :: events => event.isDue changed && areDue (event.untold changed) events

end FileEvent

/-! ## What is listed, and where -/

/-- The texts of all files, and the listings of all directories but two slashes alone. -/
def Interest.plain : Interest where
  text _ := true
  entry directory _ := directory != .twoSlashes

/-- What is written below the working directory does not begin at the root. -/
theorem FilePath.rootOf_of_working {rest : List Char} (working : directory.root = .working) :
    rootOf (directory.textWithSlash.toList ++ rest) = .working := by
  obtain ⟨start, parts, normal⟩ := directory
  obtain rfl : start = .working := working
  have begun := head?_intercalate normal
  cases parts with
  | nil => simp [textWithSlash, text, rootOf]
  | cons first parts =>
    have written : (FilePath.mk .working (first :: parts) normal).textWithSlash.toList =
        ("/".intercalate (first :: parts)).toList ++ ['/'] := by
      simp [textWithSlash, text, PathRoot.text]
    rw [written]
    cases spelled : ("/".intercalate (first :: parts)).toList with
    | nil =>
      have lost := partsOf_intercalate normal
      simp [spelled] at lost
    | cons c rest =>
      rw [spelled] at begun
      simp_all [rootOf]

/-- A directory is listed with all files that are written below it, if these begin at the root. -/
theorem FileCache.isListedIn_of_spelled {entry : String} (single : directory ≠ .twoSlashes)
    (root : (FilePath.ofString key).root = .root)
    (spelled : directory.textWithSlash ++ entry = key) :
    isListedIn directory (.ofString key) = true := by
  subst spelled
  by_cases absolute : directory.isAbsolute = true
  · by_cases filled : directory.parts = []
    · cases start : directory.root with
      | working => simp [FilePath.isAbsolute, start] at absolute
      | doubleRoot => exact absurd (FilePath.ext start filled) single
      | root =>
        simp only [isListedIn, Bool.or_eq_true, beq_iff_eq, List.contains_iff_mem]
        generalize FilePath.ofString _ = place at root ⊢
        by_cases here : place.parts = []
        · exact .inl (FilePath.ext (start.trans root.symm) (filled.trans here.symm))
        · exact .inr (FilePath.mem_parents.mpr
            ⟨start.trans root.symm, place.parts, here, by rw [filled, List.nil_append]⟩)
    · exact isListedIn_of_below (FilePath.isPlace_iff.mpr ⟨absolute, filled⟩)
  · have working : directory.root = .working := by simpa [FilePath.isAbsolute] using absolute
    rw [FilePath.root_ofString, String.toList_append, FilePath.rootOf_of_working working] at root
    cases root

/-! ## Nothing is out of date but what has not been told -/

namespace KeptFiles

variable {state : KeptFiles}

/-- What is kept of the files is what they hold, except where that depends on changes that have not been
told. -/
structure Tells (changed : List FilePath) (state : KeptFiles) : Prop where
  source : state.access.source = state.files.source
  reflects : state.access.ReflectsBut .plain changed

theorem tells_start (files : FileTable) : (start files).Tells [] where
  source := rfl
  reflects := FileAccess.reflects_of_empty rfl

theorem Tells.change {later : FileTable} (tells : state.Tells changed)
    (differ : FileSource.DifferAt key state.files.source later.source)
    (plain : (FilePath.ofString key).root = .root) :
    (state.change later).Tells (.ofString key :: changed) where
  source := rfl
  reflects := by
    rw [← tells.source] at differ
    refine tells.reflects.change_file differ (fun {path} _ spelled => ?_) ?_
    · rw [← spelled, FilePath.ofString_text]
    · intro directory entry matters spelled
      exact FileCache.isListedIn_of_spelled (by simpa [Interest.plain] using matters) plain spelled

/-- Whatever is done, all that is out of date has not been told. -/
theorem Tells.next {event : FileEvent} (tells : state.Tells changed) (plain : event.isPlain = true) :
    (state.next event).Tells (event.untold changed) := by
  cases event with
  | write path text =>
    simp only [FileEvent.isPlain, Bool.and_eq_true, beq_iff_eq] at plain
    exact tells.change (state.files.differAt_insert path text) plain.1
  | delete path =>
    simp only [FileEvent.isPlain, Bool.and_eq_true, beq_iff_eq] at plain
    exact tells.change (state.files.differAt_erase path) plain.1
  | list directory =>
    exact ⟨(FileAccess.source_list _).trans tells.source, tells.reflects.list _⟩
  | read path => exact ⟨(FileAccess.source_read _).trans tells.source, tells.reflects.read _⟩
  | invalidate paths =>
    refine ⟨tells.source, tells.reflects.invalidate fun path member => ?_⟩
    by_cases told : path ∈ paths.map FilePath.ofString
    · exact .inl told
    · refine .inr (List.mem_filter.mpr ⟨member, ?_⟩)
      simpa using told
  | forget => exact ⟨tells.source, FileAccess.reflects_forget⟩

theorem files_next (state : KeptFiles) (event : FileEvent) :
    (state.next event).files = state.files.next event := by
  cases event <;> rfl

/-- When all changes have been told, the cache answers what the files hold. -/
theorem Tells.answer? {event : FileEvent} (tells : state.Tells changed) (plain : event.isPlain = true)
    (due : event.isDue changed = true) : state.answer? event = state.files.answer? event := by
  cases event with
  | list directory =>
    obtain rfl : changed = [] := by simpa [FileEvent.isDue] using due
    have single : FilePath.ofString directory ≠ .twoSlashes := by simpa [FileEvent.isPlain] using plain
    have whole (listing : List String) :
        listing.filter (Interest.plain.entry (.ofString directory)) = listing :=
      List.filter_eq_self.mpr fun entry _ => bne_iff_ne.mpr single
    have listed := tells.reflects.filter_list (.ofString directory)
    rw [whole, whole, tells.source] at listed
    exact congrArg (some ∘ FileAnswer.listing) listed
  | read path =>
    obtain rfl : changed = [] := by simpa [FileEvent.isDue] using due
    have matters : Interest.plain.text (.ofString path) = true := rfl
    have told := tells.reflects.read_eq matters
    rw [tells.source] at told
    exact congrArg (some ∘ FileAnswer.text) told
  | write path text => rfl
  | delete path => rfl
  | invalidate paths => rfl
  | forget => rfl

theorem Tells.answers {events : List FileEvent} (tells : state.Tells changed)
    (plain : ∀ event ∈ events, event.isPlain = true)
    (due : FileEvent.areDue changed events = true) :
    state.answers events = state.files.answers events := by
  induction events generalizing state changed with
  | nil => rfl
  | cons event events ih =>
    rw [List.forall_mem_cons] at plain
    simp only [FileEvent.areDue, Bool.and_eq_true] at due
    have now := tells.answer? plain.1 due.1
    have later := ih (tells.next plain.1) plain.2 due.2
    rw [KeptFiles.answers, FileTable.answers, now, later, files_next]

/-- A cache is transparent. Whatever files there are, and whatever is written, deleted, listed, read and
forgotten: if the path of every change is told to the cache before the next question, alone, among others
or by forgetting everything, each answer is what the files hold at that moment. -/
theorem answers_through_cache (files : FileTable) (events : List FileEvent)
    (plain : ∀ event ∈ events, event.isPlain = true) (due : FileEvent.areDue [] events = true) :
    (start files).answers events = files.answers events :=
  (tells_start files).answers plain due

/-- A directory and a file that are not there when they are asked for first, and not in the end. -/
theorem answers_of_appearing_file :
    let events : List FileEvent := [.list "/p/tr", .read "/p/tr/en.json",
      .write "/p/tr/en.json" (some "b: c"), .invalidate ["/p/x", "/p/tr/en.json"], .list "/p/tr",
      .read "/p/tr/en.json", .delete "/p/tr/en.json", .forget, .list "/p"]
    (∀ event ∈ events, event.isPlain = true) ∧ FileEvent.areDue [] events = true ∧
      (start .empty).answers events =
        [.listing [], .text none, .listing ["en.json"], .text (some "b: c"), .listing []] := by
  intro events
  have plain : ∀ event ∈ events, event.isPlain = true := by decide +kernel
  have due : FileEvent.areDue [] events = true := by decide +kernel
  refine ⟨plain, due, ?_⟩
  have below : FileTable.below? (.ofString "/p/tr") "/p/tr/en.json" = some "en.json" := by
    decide +kernel
  have written : (FilePath.ofString "/p/tr/en.json").text = "/p/tr/en.json" := by decide +kernel
  rw [answers_through_cache .empty events plain due]
  simp [events, FileTable.answers, FileTable.answer?, FileTable.next, FileTable.empty, FileTable.insert,
    FileTable.erase, FileTable.list, FileTable.read, below, written]

end KeptFiles

end EmberAssist
