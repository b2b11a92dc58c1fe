import EmberAssist.Proofs.Files.Reading

/-! What is seen of files through a cache. A cache that is out of date shows other files than there are, but
whatever is read through it is read of the files that it shows, and reading changes nothing of them. -/
namespace EmberAssist

variable {α β ε : Type}

/-- The files as they are seen by an access: what its cache has kept, and for the rest what its source
tells. -/
def FileAccess.view (access : FileAccess) : FileSource where
  list directory := (access.cache.bind (·.listing? directory)).getD (access.source.list directory)
  read path := (access.cache.bind (·.text? path)).getD (access.source.read path)

namespace FileAccess

variable (access : FileAccess)

theorem fst_list (directory : FilePath) : (access.list directory).1 = access.view.list directory := by
  simp only [list, view]
  cases access.cache.bind (·.listing? directory) <;> rfl

theorem fst_read (path : FilePath) : (access.read path).1 = access.view.read path := by
  simp only [read, view]
  cases access.cache.bind (·.text? path) <;> rfl

/-- Keeping what is told of one more path changes nothing of what is known or else told. -/
theorem lookup_keep (told : FilePath → β) {known : List (FilePath × β)} {path : FilePath}
    (unknown : known.lookup path = none) (other : FilePath) :
    (((path, told path) :: known).lookup other).getD (told other) = (known.lookup other).getD (told other) := by
  by_cases same : other = path
  · subst same
    rw [List.lookup_cons_self, unknown]
    rfl
  · rw [List.lookup_cons, beq_false_of_ne same]

theorem view_list (directory : FilePath) : (access.list directory).2.view = access.view := by
  unfold list
  split
  · rfl
  · rename_i unknown
    obtain ⟨source, cache, _, _⟩ := access
    cases cache with
    | none => rfl
    | some cache =>
      have listed := lookup_keep source.list unknown
      simp only [view, FileSource.mk.injEq]
      exact ⟨funext listed, rfl⟩

theorem view_read (path : FilePath) : (access.read path).2.view = access.view := by
  unfold read
  split
  · rfl
  · rename_i unknown
    obtain ⟨source, cache, _, _⟩ := access
    cases cache with
    | none => rfl
    | some cache =>
      have read := lookup_keep source.read unknown
      simp only [view, FileSource.mk.injEq]
      exact ⟨rfl, funext read⟩

end FileAccess

namespace FileReader

/-- What is read is read of the files that are seen, and they are seen as before when it has been read. -/
structure ReadsView (reader : FileReader α) : Prop where
  answer : ∀ access, (reader access).1 = reader.told access.view
  view : ∀ access, (reader access).2.view = access.view

variable {directory path : FilePath}

theorem readsView_pure (a : α) : ReadsView (pure a : FileReader α) where
  answer _ := rfl
  view _ := rfl

theorem readsView_bind {reader : FileReader α} {next : α → FileReader β} (first : ReadsView reader)
    (later : ∀ a, ReadsView (next a)) : ReadsView (reader >>= next) where
  answer access := by
    have alone : (reader (.direct access.view)).2.view = access.view := first.view (.direct access.view)
    rw [told, bind_apply, bind_apply, (later _).answer, (later _).answer, first.view, alone, first.answer]
    rfl
  view access := by rw [bind_apply, (later _).view, first.view]

theorem readsView_map {reader : FileReader α} (f : α → β) (first : ReadsView reader) :
    ReadsView (f <$> reader) := by
  rw [map_eq_pure_bind]
  exact readsView_bind first fun a => readsView_pure (f a)

theorem readsView_listFiles : ReadsView (listFiles directory) where
  answer access := access.fst_list directory
  view access := access.view_list directory

theorem readsView_readText : ReadsView (readText path) where
  answer access := access.fst_read path
  view access := access.view_read path

theorem readsView_mapM {f : α → FileReader β} (each : ∀ a, ReadsView (f a)) (items : List α) :
    ReadsView (items.mapM f) := by
  induction items with
  | nil => exact readsView_pure []
  | cons a items ih =>
    rw [List.mapM_cons]
    exact readsView_bind (each a) fun b => readsView_bind ih fun bs => readsView_pure (b :: bs)

/-! ## Reading that may fail -/

theorem readsView_run_bind {reader : ExceptT ε FileReader α} {next : α → ExceptT ε FileReader β}
    (first : ReadsView reader.run) (later : ∀ a, ReadsView (next a).run) :
    ReadsView (reader >>= next).run := by
  rw [ExceptT.run_bind]
  apply readsView_bind first
  intro answer
  cases answer with
  | ok a => exact later a
  | error fault => exact readsView_pure _

theorem readsView_run_mapM {f : α → ExceptT ε FileReader β} (each : ∀ a, ReadsView (f a).run)
    (items : List α) : ReadsView (items.mapM f).run := by
  induction items with
  | nil => exact readsView_pure _
  | cons a items ih =>
    rw [List.mapM_cons]
    exact readsView_run_bind (each a) fun b =>
      readsView_run_bind ih fun bs => readsView_pure (Except.ok (b :: bs))

end FileReader

end EmberAssist
