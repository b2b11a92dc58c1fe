import EmberAssist.Proofs.Path
import EmberAssist.Proofs.Project.Reading

/-! Which of the known projects owns a path, and which project is found for a path. -/
namespace EmberAssist

open FileReader

namespace ProjectRegistry

variable {scripts : Script.Reader} {registry : ProjectRegistry}
variable {project other : Project} {projects : List Project}
variable {path root directory : FilePath} {marker : String} {source : FileSource}

/-! ## The owner of a path -/

/-- A path is inside the directories above it. -/
theorem isInside_of_mem_parents (absolute : path.isAbsolute = true) (above : directory ∈ path.parents) :
    isInside directory path = true := by
  simp only [isInside, Bool.or_eq_true]
  exact .inr (Text.startsWith_iff.mpr (FilePath.textWithSlash_prefix absolute above))

/-- Of several projects one that is as deep as any. -/
private theorem foldl_deeper (best : Project) (projects : List Project) :
    ∃ deepest, projects.foldl deeper (some best) = some deepest ∧
      (deepest = best ∨ deepest ∈ projects) ∧
        best.root.text.length ≤ deepest.root.text.length ∧
          ∀ other ∈ projects, other.root.text.length ≤ deepest.root.text.length := by
  induction projects generalizing best with
  | nil => exact ⟨best, rfl, .inl rfl, Nat.le_refl _, by simp⟩
  | cons first projects ih =>
    by_cases further : best.root.text.length < first.root.text.length
    · obtain ⟨deepest, found, member, deep, others⟩ := ih first
      refine ⟨deepest, by simpa [deeper, further] using found, .inr ?_, by omega, ?_⟩
      · exact member.elim (fun same => same ▸ List.mem_cons_self) (List.mem_cons_of_mem _)
      · simpa using ⟨deep, others⟩
    · obtain ⟨deepest, found, member, deep, others⟩ := ih best
      refine ⟨deepest, by simpa [deeper, further] using found,
        member.imp_right (List.mem_cons_of_mem _), deep, ?_⟩
      simpa using ⟨by omega, others⟩

/-- The owner of a path is a known project that the path is inside of, and none of those is deeper. -/
theorem owner?_eq_some (owned : registry.owner? path = some project) :
    project ∈ registry.projects ∧ isInside project.root path = true ∧
      ∀ other ∈ registry.projects, isInside other.root path = true →
        other.root.text.length ≤ project.root.text.length := by
  unfold owner? at owned
  cases inside : registry.projects.filter fun project => isInside project.root path with
  | nil => simp [inside] at owned
  | cons first rest =>
    obtain ⟨deepest, found, member, deep, others⟩ := foldl_deeper first rest
    rw [inside, List.foldl_cons, deeper, found] at owned
    obtain rfl := Option.some.inj owned
    have known (other : Project) : other ∈ first :: rest ↔
        other ∈ registry.projects ∧ isInside other.root path = true := by
      rw [← inside, List.mem_filter]
    have here := (known deepest).mp (by simpa using member)
    refine ⟨here.1, here.2, fun other found inside => ?_⟩
    rcases List.mem_cons.mp ((known other).mpr ⟨found, inside⟩) with rfl | later
    · exact deep
    · exact others other later

theorem owner?_eq_none : registry.owner? path = none ↔
    ∀ project ∈ registry.projects, isInside project.root path = false := by
  unfold owner?
  cases inside : registry.projects.filter fun project => isInside project.root path with
  | nil => simpa using List.filter_eq_nil_iff.mp inside
  | cons first rest =>
    obtain ⟨deepest, found, -⟩ := foldl_deeper first rest
    have member : first ∈ registry.projects.filter fun project => isInside project.root path := by
      simp [inside]
    rw [List.foldl_cons, deeper, found]
    simpa using ⟨first, List.mem_filter.mp member⟩

/-- A project that a path is inside of owns the path if no other such project is as deep. -/
theorem owner?_of_deepest (known : project ∈ registry.projects)
    (inside : isInside project.root path = true)
    (alone : ∀ other ∈ registry.projects, isInside other.root path = true → other ≠ project →
      other.root.text.length < project.root.text.length) : registry.owner? path = some project := by
  cases owned : registry.owner? path with
  | none => simp [owner?_eq_none.mp owned project known] at inside
  | some owner =>
    obtain ⟨member, insideOwner, deepest⟩ := owner?_eq_some owned
    have deep := deepest project known inside
    by_cases same : owner = project
    · rw [same]
    · have := alone owner member insideOwner same
      omega

/-- Of several directories that a path is inside of the deepest, and the first of those. -/
def deepestAround? (path : FilePath) (directories : List FilePath) : Option FilePath :=
  (directories.filter fun directory => isInside directory path).foldl
    (fun best directory => match best with
      | none => some directory
      | some other => if other.text.length < directory.text.length then some directory else some other)
    none

/-- Where the owner of a path is depends on the roots of the known projects alone. -/
theorem root_owner? (registry : ProjectRegistry) (path : FilePath) :
    (registry.owner? path).map Project.root = deepestAround? path registry.roots := by
  unfold owner? deepestAround? roots
  rw [List.filter_map, List.foldl_map]
  refine (List.foldl_hom (Option.map Project.root) fun best project => ?_).symm
  cases best with
  | none => rfl
  | some other =>
    simp only [deeper, Option.map_some]
    split <;> rfl

/-! ## Projects that become known -/

theorem roots_replace : (registry.replace project).roots = registry.roots :=
  map_root_replace registry.projects project

theorem projects_insert (new : project.root ∉ registry.roots) :
    (registry.insert project).projects = registry.projects ++ [project] := by
  rw [insert, dif_pos new]

/-- A project that becomes known owns the paths inside of it that had no owner. -/
theorem owner?_insert (free : registry.owner? path = none) (inside : isInside project.root path = true) :
    (registry.insert project).owner? path = some project := by
  have new : project.root ∉ registry.roots := by
    intro known
    obtain ⟨other, member, same⟩ := List.mem_map.mp known
    rw [← same, owner?_eq_none.mp free other member] at inside
    cases inside
  have known := projects_insert new
  refine owner?_of_deepest (by simp [known]) inside fun other held insideOther different => ?_
  rw [known] at held
  rcases List.mem_append.mp held with earlier | same
  · simp [owner?_eq_none.mp free other earlier] at insideOther
  · exact absurd (List.mem_singleton.mp same) different

theorem get?_eq_none : registry.get? root = none ↔ root ∉ registry.roots := by
  simp [get?, roots]

theorem get?_eq_some (found : registry.get? root = some project) :
    project ∈ registry.projects ∧ project.root = root := by
  refine ⟨List.mem_of_find?_eq_some found, ?_⟩
  simpa using List.find?_some found

theorem told_register (registry : ProjectRegistry) (root : FilePath) (source : FileSource) :
    (registry.register scripts root).told source =
      match registry.get? root with
      | some project => (project, registry)
      | none =>
        let project := (Project.readAt scripts root).told source
        (project, registry.insert project) := by
  unfold register
  cases registry.get? root with
  | some project => rfl
  | none =>
    exact told_bind (show Steady .everything _ from Project.steady_readAt rfl) (fun _ => steady_pure _)
      source

/-- The nearest of several directories that has a file with the name of the marker. -/
def firstMarked? (source : FileSource) (marker : String) (directories : List FilePath) :
    Option FilePath :=
  directories.find? fun directory => (source.read (directory / marker)).isSome

theorem told_nearestMarked? (marker : String) (directories : List FilePath) (source : FileSource) :
    (nearestMarked? marker directories).told source = firstMarked? source marker directories := by
  induction directories with
  | nil => rfl
  | cons directory directories ih =>
    have first : Steady .everything (readText (directory / marker)) := steady_readText rfl
    have read : (readText (directory / marker)).told source = source.read (directory / marker) := rfl
    rw [nearestMarked?, told_bind first, read, firstMarked?, List.find?_cons]
    · cases source.read (directory / marker) with
      | some text => rfl
      | none => exact ih
    · intro text
      cases text with
      | some text => exact steady_pure _
      | none => exact steady_nearestMarked? directories

theorem told_discover (registry : ProjectRegistry) (marker : String) (path : FilePath)
    (source : FileSource) : (registry.discover scripts marker path).told source =
      match registry.owner? path with
      | some project => (some project, registry)
      | none =>
        match firstMarked? source marker path.parents with
        | some directory =>
          let (project, registry) := (registry.register scripts directory).told source
          (some project, registry)
        | none => (none, registry) := by
  unfold discover
  cases registry.owner? path with
  | some project => rfl
  | none =>
    refine (told_bind (steady_nearestMarked? _) ?_ source).trans ?_
    · exact fun
        | some _ => steady_bind steady_register fun _ => steady_pure _
        | none => steady_pure _
    · rw [told_nearestMarked?]
      cases firstMarked? source marker path.parents with
      | some directory => exact told_bind steady_register (fun _ => steady_pure _) source
      | none => rfl

theorem mem_of_nearestMarked? {directories : List FilePath} {access : FileAccess}
    (found : (nearestMarked? marker directories access).1 = some directory) :
    directory ∈ directories := by
  induction directories generalizing access with
  | nil => cases found
  | cons first directories ih =>
    rw [nearestMarked?, bind_apply] at found
    cases marked : (readText (first / marker) access).1 with
    | some text =>
      rw [marked] at found
      obtain rfl : first = directory := Option.some.inj found
      exact List.mem_cons_self
    | none =>
      rw [marked] at found
      exact List.mem_cons_of_mem _ (ih found)

/-- The project that is found for a path owns it from then on. -/
theorem owner?_discover (absolute : path.isAbsolute = true) (access : FileAccess) :
    (registry.discover scripts marker path access).1.2.owner? path =
      (registry.discover scripts marker path access).1.1 := by
  unfold discover
  cases owned : registry.owner? path with
  | some project => exact owned
  | none =>
    simp only
    rw [bind_apply]
    cases found : (nearestMarked? marker path.parents access).1 with
    | none => exact owned
    | some directory =>
      have inside := isInside_of_mem_parents absolute (mem_of_nearestMarked? found)
      simp only
      rw [bind_apply]
      change (registry.register scripts directory _).1.2.owner? path =
        some (registry.register scripts directory _).1.1
      unfold register
      cases known : registry.get? directory with
      | some project =>
        obtain ⟨member, rfl⟩ := get?_eq_some known
        simp [owner?_eq_none.mp owned project member] at inside
      | none => exact owner?_insert owned inside

/-! ## Registries that are current -/

/-- What is known of every project is what a source tells. -/
def IsCurrent (scripts : Script.Reader) (source : FileSource) (registry : ProjectRegistry) : Prop :=
  ∀ project ∈ registry.projects, project.IsCurrent scripts source

theorem IsCurrent.replace (current : registry.IsCurrent scripts source)
    (replaced : project.IsCurrent scripts source) :
    (registry.replace project).IsCurrent scripts source := by
  intro known member
  obtain ⟨earlier, found, rfl⟩ := List.mem_map.mp member
  split
  · exact replaced
  · exact current earlier found

theorem IsCurrent.register (current : registry.IsCurrent scripts source) (root : FilePath) :
    ((registry.register scripts root).told source).1.IsCurrent scripts source ∧
      ((registry.register scripts root).told source).2.IsCurrent scripts source := by
  rw [told_register]
  cases found : registry.get? root with
  | some project => exact ⟨current project (get?_eq_some found).1, current⟩
  | none =>
    have new := Project.isCurrent_readAt scripts root source
    refine ⟨new, fun project member => ?_⟩
    rw [projects_insert (get?_eq_none.mp found)] at member
    rcases List.mem_append.mp member with member | member
    · exact current project member
    · exact List.mem_singleton.mp member ▸ new

theorem IsCurrent.discover (current : registry.IsCurrent scripts source) (marker : String)
    (path : FilePath) :
    ((registry.discover scripts marker path).told source).2.IsCurrent scripts source := by
  rw [told_discover]
  cases registry.owner? path with
  | some project => exact current
  | none =>
    cases firstMarked? source marker path.parents with
    | some directory => exact (current.register directory).2
    | none => exact current

/-! ## Roots of the known projects -/

/-- At a root that is not known a project is read and becomes known. -/
theorem fst_register (new : root ∉ registry.roots) (access : FileAccess) :
    (registry.register scripts root access).1 =
      ((Project.readAt scripts root access).1, registry.insert (Project.readAt scripts root access).1) := by
  unfold register
  rw [get?_eq_none.mpr new]
  rfl

/-- A root that becomes known is put behind those that are known already. -/
theorem roots_register (registry : ProjectRegistry) (root : FilePath) (access : FileAccess) :
    (registry.register scripts root access).1.2.roots =
      if root ∈ registry.roots then registry.roots else registry.roots ++ [root] := by
  by_cases known : root ∈ registry.roots
  · obtain ⟨project, found⟩ := Option.ne_none_iff_exists'.mp (mt get?_eq_none.mp (not_not.mpr known))
    rw [if_pos known, register, found]
    rfl
  · rw [if_neg known, fst_register known]
    exact (congrArg (List.map Project.root) (projects_insert known)).trans List.map_append

/-- The project at a root is known once it has been registered. -/
theorem mem_register (registry : ProjectRegistry) (scripts : Script.Reader) (root : FilePath)
    (access : FileAccess) :
    (registry.register scripts root access).1.1 ∈ (registry.register scripts root access).1.2.projects ∧
      (registry.register scripts root access).1.1.root = root := by
  cases found : registry.get? root with
  | some project =>
    rw [register, found]
    exact get?_eq_some found
  | none =>
    have new : root ∉ registry.roots := get?_eq_none.mp found
    rw [fst_register new, projects_insert new]
    exact ⟨List.mem_append_right _ (List.mem_singleton.mpr rfl), rfl⟩

/-- The project that is found for a path is known from then on. -/
theorem mem_of_discover {access : FileAccess}
    (found : (registry.discover scripts marker path access).1.1 = some project) :
    project ∈ (registry.discover scripts marker path access).1.2.projects := by
  unfold discover at found ⊢
  cases owned : registry.owner? path with
  | some owner =>
    rw [owned] at found
    exact (owner?_eq_some (owned.trans found)).1
  | none =>
    rw [owned] at found
    simp only at found ⊢
    rw [bind_apply] at found ⊢
    cases marked : (nearestMarked? marker path.parents access).1 with
    | none =>
      rw [marked] at found
      cases found
    | some directory =>
      rw [marked] at found
      have known := (registry.mem_register scripts directory (nearestMarked? marker path.parents access).2).1
      exact Option.some.inj found ▸ known

/-- Projects at some of the known roots are put in the place of those that are known there. -/
theorem projects_foldl_replace {project : FilePath → Project} (rooted : ∀ root, (project root).root = root)
    (places : List FilePath) (registry : ProjectRegistry) :
    (places.foldl (fun registry root => registry.replace (project root)) registry).projects =
      registry.projects.map fun known => if known.root ∈ places then project known.root else known := by
  induction places generalizing registry with
  | nil => simp
  | cons place places ih =>
    rw [List.foldl_cons, ih, replace, List.map_map]
    refine List.map_congr_left fun known _ => ?_
    by_cases here : known.root = place
    · simp [here, rooted]
    · simp [here, rooted]

/-- The layouts of all projects are read again, and the projects stay where they are. -/
theorem told_refresh (registry : ProjectRegistry) (source : FileSource) :
    ((registry.refresh scripts).told source).projects =
      registry.roots.map fun root => (Project.readAt scripts root).told source := by
  have step (registry : ProjectRegistry) (root : FilePath) : (refreshAt scripts registry root).told source =
      registry.replace ((Project.readAt scripts root).told source) :=
    told_bind (show Steady .everything _ from Project.steady_readAt rfl) (fun _ => steady_pure _) source
  rw [refresh, told_foldlM _ (fun _ _ => steady_refreshAt)]
  simp only [step]
  rw [projects_foldl_replace fun _ => rfl, roots, List.map_map]
  exact List.map_congr_left fun known member => if_pos (List.mem_map_of_mem member)

end ProjectRegistry

end EmberAssist
