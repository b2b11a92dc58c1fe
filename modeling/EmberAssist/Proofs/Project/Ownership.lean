import EmberAssist.Proofs.Project.Orderly
import EmberAssist.Script.Parser

/-! Whose a path is. Ownership is told from how paths are written: a root owns what begins with it and a slash, and
of several roots the longest one counts. For paths from the root on this is the same as looking at segments: a
path belongs to the nearest known root above it, whatever roots there are beside that. -/
namespace EmberAssist

namespace FilePath

variable {directory other path : FilePath}

/-- A path from the root on, with one slash in front. -/
def IsRooted (path : FilePath) : Prop := path.root = .root

instance : Decidable path.IsRooted := inferInstanceAs (Decidable (path.root = .root))

/-- A path is a directory itself or lies below it, segment by segment. -/
def Encloses (directory path : FilePath) : Prop := directory = path ∨ directory ∈ path.parents

instance : Decidable (directory.Encloses path) :=
  inferInstanceAs (Decidable (directory = path ∨ directory ∈ path.parents))

theorem encloses_iff : directory.Encloses path ↔
    directory.root = path.root ∧ directory.parts <+: path.parts := by
  rw [Encloses, mem_parents]
  constructor
  · rintro (rfl | ⟨root, rest, -, cut⟩)
    · exact ⟨rfl, List.prefix_rfl⟩
    · exact ⟨root, rest, cut.symm⟩
  · rintro ⟨root, rest, cut⟩
    by_cases here : rest = []
    · exact .inl (FilePath.ext root (by rw [← cut, here, List.append_nil]))
    · exact .inr ⟨root, rest, here, cut.symm⟩

/-- Of two directories that a path lies in, one lies in the other. -/
theorem Encloses.nested (one : directory.Encloses path) (two : other.Encloses path) :
    directory.Encloses other ∨ other.Encloses directory := by
  simp only [encloses_iff] at *
  obtain ⟨root, above⟩ := one
  obtain ⟨root', above'⟩ := two
  rcases List.prefix_or_prefix_of_prefix above above' with inside | inside
  · exact .inl ⟨root.trans root'.symm, inside⟩
  · exact .inr ⟨root'.trans root.symm, inside⟩

theorem IsRooted.isAbsolute (rooted : path.IsRooted) : path.isAbsolute = true := by
  rw [FilePath.isAbsolute, show path.root = .root from rooted]
  rfl

theorem IsRooted.of_mem_parents (rooted : path.IsRooted) (above : directory ∈ path.parents) :
    directory.IsRooted :=
  (mem_parents.mp above).1.trans rooted

theorem notMem_parents (path : FilePath) : path ∉ path.parents := by
  intro above
  obtain ⟨-, rest, filled, cut⟩ := mem_parents.mp above
  exact filled (List.append_right_eq_self.mp cut.symm)

theorem IsRooted.text_prefix (rooted : directory.IsRooted) :
    directory.text.toList <+: directory.textWithSlash.toList := by
  by_cases filled : directory.parts = []
  · have top : directory = .top .root := FilePath.ext rooted filled
    rw [top]
    exact List.prefix_rfl
  · rw [toList_textWithSlash_of_ne_nil filled]
    exact List.prefix_append _ _

/-- A directory is written with fewer characters than what lies below it. -/
theorem IsRooted.length_text (rooted : path.IsRooted) (above : directory ∈ path.parents) :
    directory.text.length < path.text.length := by
  have rooted' := rooted.of_mem_parents above
  have below := textWithSlash_prefix rooted.isAbsolute above
  have begun : directory.text.toList <+: path.text.toList := rooted'.text_prefix.trans below
  refine Nat.lt_of_le_of_ne begun.length_le fun same => ?_
  have written : directory.text = path.text :=
    String.toList_inj.mp (begun.eq_of_length same)
  have here : directory = path := by
    rw [← ofString_text directory, written, ofString_text]
  exact notMem_parents path (here ▸ above)

/-- What is written below a root lies in it, segment by segment. -/
theorem IsRooted.encloses_of_prefix (rooted : directory.IsRooted) (rooted' : path.IsRooted)
    (below : directory.textWithSlash.toList <+: path.text.toList) : directory.Encloses path := by
  obtain ⟨rest, cut⟩ := below
  have parts : path.parts = directory.parts ++ partsOf rest := by
    rw [← partsOf_below rooted.isAbsolute, cut]
    exact congrArg FilePath.parts (ofString_text path).symm
  exact encloses_iff.mpr ⟨rooted.trans rooted'.symm, partsOf rest, parts.symm⟩

end FilePath

namespace ProjectRegistry

open FilePath

variable {registry : ProjectRegistry} {project other : Project} {path root : FilePath}

/-- Whether a path is inside a root can be told from how both are written. -/
theorem isInside_iff (rooted : root.IsRooted) (rooted' : path.IsRooted) :
    isInside root path = true ↔ root.Encloses path := by
  constructor
  · intro inside
    simp only [isInside, Bool.or_eq_true, beq_iff_eq] at inside
    rcases inside with rfl | below
    · exact .inl rfl
    · exact rooted.encloses_of_prefix rooted' (Text.startsWith_iff.mp below)
  · rintro (rfl | above)
    · simp [isInside]
    · exact isInside_of_mem_parents rooted'.isAbsolute above

/-! ## Registries that come about -/

/-- What discovering the project of a path can do to the known projects: nothing, or one more is registered at a
directory above the path. -/
theorem discover_cases (registry : ProjectRegistry) (scripts : Script.Reader) (marker : String)
    (path : FilePath) (access : FileAccess) :
    (registry.discover scripts marker path access).1.2 = registry ∨ ∃ directory ∈ path.parents, ∃ later,
      (registry.discover scripts marker path access).1.2 = (registry.register scripts directory later).1.2 := by
  unfold discover
  cases registry.owner? path with
  | some project => exact .inl rfl
  | none =>
    simp only
    rw [FileReader.bind_apply]
    cases found : (nearestMarked? marker path.parents access).1 with
    | some directory => exact .inr ⟨directory, mem_of_nearestMarked? found, _, rfl⟩
    | none => exact .inl rfl

/-- A registry that has come about by registering projects at roots and by discovering the projects of
paths, whatever the files were each time and however scripts were read. All these paths are written from the
root on. -/
inductive Reached : ProjectRegistry → Prop where
  | empty : Reached .empty
  | register {registry : ProjectRegistry} {root : FilePath} (reached : Reached registry)
      (rooted : root.IsRooted) (scripts : Script.Reader) (access : FileAccess) :
      Reached (registry.register scripts root access).1.2
  | discover {registry : ProjectRegistry} {path : FilePath} (reached : Reached registry)
      (rooted : path.IsRooted) (scripts : Script.Reader) (marker : String) (access : FileAccess) :
      Reached (registry.discover scripts marker path access).1.2

/-- The known roots are written from the root on. -/
def IsRooted (registry : ProjectRegistry) : Prop := ∀ root ∈ registry.roots, root.IsRooted

theorem IsRooted.register (sound : registry.IsRooted) (rooted : root.IsRooted) (scripts : Script.Reader)
    (access : FileAccess) : (registry.register scripts root access).1.2.IsRooted := by
  rw [IsRooted, roots_register]
  split
  · exact sound
  · intro known member
    rcases List.mem_append.mp member with earlier | new
    · exact sound known earlier
    · exact List.mem_singleton.mp new ▸ rooted

theorem Reached.isRooted (reached : registry.Reached) : registry.IsRooted := by
  induction reached with
  | empty => exact nofun
  | register _ rooted scripts access ih => exact ih.register rooted scripts access
  | @discover registry path _ rooted scripts marker access ih =>
    rcases registry.discover_cases scripts marker path access with same | ⟨directory, above, later, registered⟩
    · rwa [same]
    · rw [registered]
      exact ih.register (rooted.of_mem_parents above) scripts later

/-! ## Owners -/

variable (sound : registry.IsRooted)
include sound

/-- A path has no owner where it lies in none of the known roots. -/
theorem IsRooted.owner?_eq_none_iff (rooted : path.IsRooted) :
    registry.owner? path = none ↔ ∀ project ∈ registry.projects, ¬ project.root.Encloses path := by
  rw [owner?_eq_none]
  refine forall₂_congr fun project known => ?_
  rw [← isInside_iff (sound _ (List.mem_map_of_mem known)) rooted, Bool.not_eq_true]

/-- The owner of a path is at the root around it that lies in all others around it. -/
theorem IsRooted.owner?_eq_some_iff (rooted : path.IsRooted) : registry.owner? path = some project ↔
    project ∈ registry.projects ∧ project.root.Encloses path ∧
      ∀ other ∈ registry.projects, other.root.Encloses path →
        other = project ∨ other.root ∈ project.root.parents := by
  have inside {known : Project} (member : known ∈ registry.projects) :
      isInside known.root path = true ↔ known.root.Encloses path :=
    isInside_iff (sound _ (List.mem_map_of_mem member)) rooted
  constructor
  · intro owned
    obtain ⟨known, around, deepest⟩ := owner?_eq_some owned
    refine ⟨known, (inside known).mp around, fun other known' around' => ?_⟩
    rcases ((inside known).mp around).nested around' with (root | above) | (root | above)
    · exact .inl (eq_of_root known' known root.symm)
    · -- The other root would be deeper, and so it would be longer.
      have longer := (sound _ (List.mem_map_of_mem known')).length_text above
      have := deepest other known' ((inside known').mpr around')
      omega
    · exact .inl (eq_of_root known' known root)
    · exact .inr above
  · rintro ⟨known, around, others⟩
    refine owner?_of_deepest known ((inside known).mpr around) fun other known' around' different => ?_
    have above := (others other known' ((inside known').mp around')).resolve_left different
    exact (sound _ (List.mem_map_of_mem known)).length_text above

omit sound

/-- A path belongs to the nearest known root above it. However projects have become known: a path from the root on
has no owner exactly if it lies in none of the known roots, and otherwise the owner is the project whose root is
below all other known roots that the path lies in. The project that is discovered for a path is its owner from
then on. -/
theorem owner?_of_reached (reached : registry.Reached) (rooted : path.IsRooted) :
    (registry.owner? path = none ↔ ∀ project ∈ registry.projects, ¬ project.root.Encloses path) ∧
      (∀ project, registry.owner? path = some project ↔
        project ∈ registry.projects ∧ project.root.Encloses path ∧
          ∀ other ∈ registry.projects, other.root.Encloses path →
            other = project ∨ other.root ∈ project.root.parents) ∧
      ∀ scripts marker access,
        let (discovered, later) := (registry.discover scripts marker path access).1
        later.owner? path = discovered :=
  ⟨reached.isRooted.owner?_eq_none_iff rooted, fun _ => reached.isRooted.owner?_eq_some_iff rooted,
    fun _ _ access => owner?_discover rooted.isAbsolute access⟩

/-- A project around one that has been discovered owns a path that begins with the letters of the inner root. -/
theorem owner?_beside_inner_project :
    let access := FileAccess.direct (FileTable.mk [("/w/lib/package.json", some "")]).source
    let inner := (empty.discover .usual "package.json" (.ofString "/w/lib/app/x.hbs") access).1.2
    let registry := (inner.register .usual (.ofString "/w") access).1.2
    let path := FilePath.ofString "/w/library/x.hbs"
    let outer := (Project.readAt .usual (.ofString "/w") access).1
    registry.Reached ∧ path.IsRooted ∧ registry.roots = [.ofString "/w/lib", .ofString "/w"] ∧
      registry.owner? path = some outer := by
  intro access inner registry path outer
  have rooted : (FilePath.ofString "/w/lib/app/x.hbs").IsRooted ∧ (FilePath.ofString "/w").IsRooted ∧
      path.IsRooted := by decide +kernel
  have found : inner.Reached := Reached.empty.discover rooted.1 .usual _ access
  have reached : registry.Reached := found.register rooted.2.1 .usual access
  have roots : registry.roots = [.ofString "/w/lib", .ofString "/w"] := by decide +kernel
  have known : outer ∈ registry.projects ∧ outer.root.Encloses path ∧
      ∀ other ∈ registry.projects, other.root.Encloses path →
        other = outer ∨ other.root ∈ outer.root.parents := by decide +kernel
  exact ⟨reached, rooted.2.2, roots, ((owner?_of_reached reached rooted.2.2).2.1 outer).mpr known⟩

end ProjectRegistry

end EmberAssist
