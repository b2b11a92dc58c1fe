import EmberAssist.Files.Access

/-! Reading files through a cache. As long as the cache tells, of what matters, what its source tells,
whatever is read through it is what would be read without it. -/
namespace EmberAssist

variable {α β ε : Type}

/-- What matters of the files: the texts of some paths, and some of the entries of listings. -/
structure Interest where
  text : FilePath → Bool
  entry : FilePath → String → Bool

/-- Everything matters. -/
def Interest.everything : Interest := ⟨fun _ => true, fun _ _ => true⟩

/-- Two sources tell the same of all that matters. -/
structure FileSource.Agrees (interest : Interest) (one other : FileSource) : Prop where
  text : ∀ {path}, interest.text path = true → one.read path = other.read path
  listing : ∀ directory, (one.list directory).filter (interest.entry directory) =
    (other.list directory).filter (interest.entry directory)

/-- What is kept of the files tells of all that matters what the source tells, except where it depends
on some paths. -/
structure FileAccess.ReflectsBut (interest : Interest) (changed : List FilePath)
    (access : FileAccess) : Prop where
  text : ∀ {cache path text}, access.cache = some cache → cache.text? path = some text →
    interest.text path = true → path ∉ changed → text = access.source.read path
  listing : ∀ {cache directory listing}, access.cache = some cache →
    cache.listing? directory = some listing →
      (∀ path ∈ changed, FileCache.isListedIn directory path = false) →
        listing.filter (interest.entry directory) =
          (access.source.list directory).filter (interest.entry directory)

/-- What is kept of the files tells of all that matters what the source tells. -/
abbrev FileAccess.Reflects (interest : Interest) (access : FileAccess) : Prop :=
  access.ReflectsBut interest []

namespace FileAccess

variable {interest : Interest} {changed : List FilePath} {access : FileAccess}

theorem reflects_of_no_cache (none : access.cache = none) : access.ReflectsBut interest changed where
  text kept := by simp [none] at kept
  listing kept := by simp [none] at kept

theorem reflects_of_empty (empty : access.cache = some .empty) :
    access.ReflectsBut interest changed where
  text kept found := by
    obtain rfl := Option.some.inj (empty.symm.trans kept)
    cases found
  listing kept found := by
    obtain rfl := Option.some.inj (empty.symm.trans kept)
    cases found

theorem reflects_forget : access.forget.Reflects interest := by
  cases kept : access.cache with
  | none => exact reflects_of_no_cache (by simp [forget, kept])
  | some cache => exact reflects_of_empty (by simp [forget, kept])

@[simp]
theorem source_list (directory : FilePath) : (access.list directory).2.source = access.source := by
  unfold list
  split <;> rfl

@[simp]
theorem source_read (path : FilePath) : (access.read path).2.source = access.source := by
  unfold read
  split <;> rfl

theorem ReflectsBut.list (reflects : access.ReflectsBut interest changed) (directory : FilePath) :
    (access.list directory).2.ReflectsBut interest changed := by
  unfold FileAccess.list
  split
  · exact reflects
  · constructor
    · intro cache path text kept found
      obtain ⟨cache, before, rfl⟩ := Option.map_eq_some_iff.mp kept
      exact reflects.text before found
    · intro cache other listing kept found
      obtain ⟨cache, before, rfl⟩ := Option.map_eq_some_iff.mp kept
      simp only [FileCache.listing?, FileCache.keepListing, List.lookup_cons] at found
      split at found
      · rename_i same
        rw [eq_of_beq same, ← Option.some.inj found]
        exact fun _ => rfl
      · exact reflects.listing before found

theorem ReflectsBut.read (reflects : access.ReflectsBut interest changed) (path : FilePath) :
    (access.read path).2.ReflectsBut interest changed := by
  unfold FileAccess.read
  split
  · exact reflects
  · constructor
    · intro cache other text kept found
      obtain ⟨cache, before, rfl⟩ := Option.map_eq_some_iff.mp kept
      simp only [FileCache.text?, FileCache.keepText, List.lookup_cons] at found
      split at found
      · rename_i same
        rw [eq_of_beq same, ← Option.some.inj found]
        exact fun _ _ => rfl
      · exact reflects.text before found
    · intro cache directory listing kept found
      obtain ⟨cache, before, rfl⟩ := Option.map_eq_some_iff.mp kept
      exact reflects.listing before found

theorem ReflectsBut.filter_list (reflects : access.Reflects interest) (directory : FilePath) :
    (access.list directory).1.filter (interest.entry directory) =
      (access.source.list directory).filter (interest.entry directory) := by
  unfold FileAccess.list
  split
  · rename_i listing found
    obtain ⟨cache, kept, found⟩ := Option.bind_eq_some_iff.mp found
    exact reflects.listing kept found nofun
  · rfl

theorem ReflectsBut.read_eq (reflects : access.Reflects interest) {path : FilePath}
    (matters : interest.text path = true) : (access.read path).1 = access.source.read path := by
  unfold FileAccess.read
  split
  · rename_i text found
    obtain ⟨cache, kept, found⟩ := Option.bind_eq_some_iff.mp found
    exact reflects.text kept found matters List.not_mem_nil
  · rfl

end FileAccess

namespace FileReader

/-- What is read from a source without a cache. -/
def told (reader : FileReader α) (source : FileSource) : α := (reader (.direct source)).1

/-- Only what matters is read: from sources that agree on it the same, and through a cache that reflects
it the same as without the cache. The cache goes on reflecting what it does, whatever that is. -/
structure Steady (interest : Interest) (reader : FileReader α) : Prop where
  source : ∀ access, (reader access).2.source = access.source
  agrees : ∀ {one other : FileSource}, one.Agrees interest other → reader.told one = reader.told other
  answer : ∀ {access}, access.Reflects interest → (reader access).1 = reader.told access.source
  reflects : ∀ {reflected changed access}, access.ReflectsBut reflected changed →
    (reader access).2.ReflectsBut reflected changed

variable {interest : Interest} {directory path : FilePath}

theorem steady_pure (a : α) : Steady interest (pure a : FileReader α) where
  source _ := rfl
  agrees _ := rfl
  answer _ := rfl
  reflects := id

theorem bind_apply (reader : FileReader α) (next : α → FileReader β) (access : FileAccess) :
    (reader >>= next) access = next (reader access).1 (reader access).2 := rfl

theorem told_bind {reader : FileReader α} {next : α → FileReader β} (first : Steady interest reader)
    (later : ∀ a, Steady interest (next a)) (source : FileSource) :
    (reader >>= next).told source = (next (reader.told source)).told source := by
  have direct : (FileAccess.direct source).Reflects interest := FileAccess.reflects_of_no_cache rfl
  rw [told, bind_apply, (later _).answer (first.reflects direct), first.source]
  rfl

theorem steady_bind {reader : FileReader α} {next : α → FileReader β} (first : Steady interest reader)
    (later : ∀ a, Steady interest (next a)) : Steady interest (reader >>= next) where
  source access := by rw [bind_apply, (later _).source, first.source]
  agrees agree := by
    rw [told_bind first later, told_bind first later, first.agrees agree, (later _).agrees agree]
  answer reflects := by
    rw [bind_apply, told_bind first later, (later _).answer (first.reflects reflects), first.source,
      first.answer reflects]
  reflects reflects := by
    rw [bind_apply]
    exact (later _).reflects (first.reflects reflects)

theorem steady_map {reader : FileReader α} (f : α → β) (steady : Steady interest reader) :
    Steady interest (f <$> reader) := by
  rw [map_eq_pure_bind]
  exact steady_bind steady fun a => steady_pure (f a)

theorem steady_mapM {f : α → FileReader β} {items : List α}
    (steady : ∀ a ∈ items, Steady interest (f a)) : Steady interest (items.mapM f) := by
  induction items with
  | nil => exact steady_pure []
  | cons a items ih =>
    rw [List.mapM_cons]
    exact steady_bind (steady a List.mem_cons_self) fun b =>
      steady_bind (ih fun a member => steady a (List.mem_cons_of_mem _ member)) fun bs =>
        steady_pure (b :: bs)

theorem told_mapM {f : α → FileReader β} (items : List α) (steady : ∀ a, Steady interest (f a))
    (source : FileSource) : (items.mapM f).told source = items.map fun a => (f a).told source := by
  induction items with
  | nil => rfl
  | cons a items ih =>
    have rest : Steady interest (items.mapM f) := steady_mapM fun a _ => steady a
    rw [List.mapM_cons, List.map_cons, ← ih]
    exact (told_bind (steady a) (fun b => steady_bind rest fun bs => steady_pure (b :: bs)) source).trans
      (told_bind rest (fun bs => steady_pure _) source)

theorem steady_foldlM {f : β → α → FileReader β} (items : List α)
    (steady : ∀ b a, Steady interest (f b a)) (b : β) : Steady interest (items.foldlM f b) := by
  induction items generalizing b with
  | nil => exact steady_pure b
  | cons a items ih =>
    rw [List.foldlM_cons]
    exact steady_bind (steady b a) ih

theorem told_foldlM {f : β → α → FileReader β} (items : List α) (steady : ∀ b a, Steady interest (f b a))
    (b : β) (source : FileSource) :
    (items.foldlM f b).told source = items.foldl (fun b a => (f b a).told source) b := by
  induction items generalizing b with
  | nil => rfl
  | cons a items ih =>
    rw [List.foldlM_cons, told_bind (steady b a) fun b => steady_foldlM items steady b, ih]
    rfl

theorem steady_readText (matters : interest.text path = true) : Steady interest (readText path) where
  source access := access.source_read path
  agrees agree := agree.text matters
  answer reflects := reflects.read_eq matters
  reflects reflects := reflects.read path

/-- What goes on from a listing is steady if only those entries count in it that matter. -/
theorem steady_listFiles_bind {next : List String → FileReader β}
    (filtered : ∀ listing, next (listing.filter (interest.entry directory)) = next listing)
    (later : ∀ listing, Steady interest (next listing)) :
    Steady interest (listFiles directory >>= next) := by
  have run (access : FileAccess) : (listFiles directory >>= next) access =
      next (access.list directory).1 (access.list directory).2 := rfl
  have same {access : FileAccess} (reflects : access.Reflects interest) :
      next (access.list directory).1 = next (access.source.list directory) := by
    rw [← filtered, reflects.filter_list, filtered]
  have alone (source : FileSource) : (listFiles directory >>= next).told source =
      (next (source.list directory)).told source := by
    have direct : (FileAccess.direct source).Reflects interest := FileAccess.reflects_of_no_cache rfl
    rw [told, run, same direct, (later _).answer (direct.list directory), FileAccess.source_list]
    rfl
  constructor
  · intro access
    rw [run, (later _).source, FileAccess.source_list]
  · intro one other agree
    rw [alone, alone, ← filtered, agree.listing, filtered, (later _).agrees agree]
  · intro access reflects
    rw [run, alone, same reflects, (later _).answer (reflects.list directory), FileAccess.source_list]
  · intro reflected changed access reflects
    rw [run]
    exact (later _).reflects (reflects.list directory)

theorem steady_listFiles : Steady .everything (listFiles directory) := by
  have whole (listing : List String) :
      listing.filter (Interest.everything.entry directory) = listing :=
    List.filter_eq_self.mpr (by simp [Interest.everything])
  have := steady_listFiles_bind (fun listing => congrArg pure (whole listing)) steady_pure
  rwa [bind_pure] at this

/-! ## Reading that may fail -/

theorem steady_run_pure (a : α) : Steady interest (pure a : ExceptT ε FileReader α).run :=
  steady_pure _

theorem steady_run_ofExcept (answer : Except ε α) :
    Steady interest (liftM answer : ExceptT ε FileReader α).run := steady_pure answer

theorem steady_run_lift {reader : FileReader α} (steady : Steady interest reader) :
    Steady interest (liftM reader : ExceptT ε FileReader α).run :=
  steady_bind steady fun _ => steady_pure _

theorem steady_run_bind {reader : ExceptT ε FileReader α} {next : α → ExceptT ε FileReader β}
    (first : Steady interest reader.run) (later : ∀ a, Steady interest (next a).run) :
    Steady interest (reader >>= next).run := by
  rw [ExceptT.run_bind]
  exact steady_bind first fun
    | .ok a => later a
    | .error _ => steady_pure _

theorem told_run_bind {reader : ExceptT ε FileReader α} {next : α → ExceptT ε FileReader β}
    (first : Steady interest reader.run) (later : ∀ a, Steady interest (next a).run)
    (source : FileSource) : (reader >>= next).run.told source =
      reader.run.told source >>= fun a => (next a).run.told source := by
  rw [ExceptT.run_bind]
  refine (told_bind first ?_ source).trans ?_
  · exact fun
      | .ok a => later a
      | .error _ => steady_pure _
  · cases reader.run.told source <;> rfl

theorem steady_run_mapM {f : α → ExceptT ε FileReader β} {items : List α}
    (steady : ∀ a ∈ items, Steady interest (f a).run) : Steady interest (items.mapM f).run := by
  induction items with
  | nil => exact steady_run_pure []
  | cons a items ih =>
    rw [List.mapM_cons]
    exact steady_run_bind (steady a List.mem_cons_self) fun b =>
      steady_run_bind (ih fun a member => steady a (List.mem_cons_of_mem _ member)) fun bs =>
        steady_run_pure (b :: bs)

end FileReader

end EmberAssist
