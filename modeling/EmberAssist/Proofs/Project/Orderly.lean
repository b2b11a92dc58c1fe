import EmberAssist.Proofs.Project.Registry
import Mathlib.Data.List.Nodup

/-! What holds of the known projects whatever the files are: each is classified by its own layout and has
collected its modules with it, and it keeps its place among the others. -/
namespace EmberAssist

open FileReader

namespace Project

variable {scripts : Script.Reader} {project before middle after : Project}

/-- A project classifies paths by its layout, and with this layout it has collected its modules, if it has
collected them at all. -/
structure IsOrderly (project : Project) : Prop where
  classifier : project.classifier = ⟨project.layout⟩
  modules : ∀ {modules}, project.modules = some modules →
    ∃ access, modules = (collectModules project.layout access).1

/-- A project is where it was and is laid out as it was. Its modules may have been collected since. -/
structure Remains (before after : Project) : Prop where
  root : after.root = before.root
  layout : after.layout = before.layout
  classifier : after.classifier = before.classifier
  modules : before.modules = none ∨ after.modules = before.modules

theorem Remains.refl (project : Project) : project.Remains project := ⟨rfl, rfl, rfl, .inr rfl⟩

theorem Remains.trans (first : before.Remains middle) (second : middle.Remains after) :
    before.Remains after where
  root := second.root.trans first.root
  layout := second.layout.trans first.layout
  classifier := second.classifier.trans first.classifier
  modules := by
    rcases first.modules with none | same
    · exact .inl none
    · exact same ▸ second.modules

theorem isOrderly_readAt (scripts : Script.Reader) (root : FilePath) (access : FileAccess) :
    (readAt scripts root access).1.IsOrderly := ⟨rfl, nofun⟩

theorem remains_withModules (project : Project) (access : FileAccess) :
    project.Remains (project.withModules access).1.1 := by
  unfold withModules
  cases collected : project.modules with
  | some modules => exact .refl project
  | none => exact ⟨rfl, rfl, rfl, .inl collected⟩

theorem IsOrderly.withModules (orderly : project.IsOrderly) (access : FileAccess) :
    (project.withModules access).1.1.IsOrderly := by
  unfold Project.withModules
  cases collected : project.modules with
  | some modules => exact orderly
  | none =>
    refine ⟨orderly.classifier, fun found => ?_⟩
    cases found
    exact ⟨access, rfl⟩

end Project

namespace ProjectRegistry

variable {scripts : Script.Reader} {registry before middle after : ProjectRegistry} {project : Project}
variable {root : FilePath}
variable {bound more : Nat}

/-- The known projects are orderly. -/
def IsOrderly (registry : ProjectRegistry) : Prop := ∀ project ∈ registry.projects, project.IsOrderly

theorem isOrderly_empty : empty.IsOrderly := nofun

/-- Known projects with the same root are the same. -/
theorem eq_of_root {other : Project} (known : project ∈ registry.projects)
    (known' : other ∈ registry.projects) (root : project.root = other.root) : project = other :=
  List.inj_on_of_nodup_map registry.distinct known known' root

/-- A root is the key of the project that it is the root of. -/
theorem get?_eq_some_iff :
    registry.get? root = some project ↔ project ∈ registry.projects ∧ project.root = root := by
  refine ⟨get?_eq_some, ?_⟩
  rintro ⟨member, rfl⟩
  cases found : registry.get? project.root with
  | none => exact absurd (List.mem_map_of_mem member) (get?_eq_none.mp found)
  | some other =>
    obtain ⟨known, same⟩ := get?_eq_some found
    rw [eq_of_root known member same]

/-! ## Places -/

/-- Every known project has remained at its place, and no more than a number of others have become
known. -/
structure GrowsBy (bound : Nat) (before after : ProjectRegistry) : Prop where
  remain : ∀ {i : Nat} {project : Project}, before.projects[i]? = some project →
    ∃ later, after.projects[i]? = some later ∧ project.Remains later
  bounded : after.projects.length ≤ before.projects.length + bound

theorem GrowsBy.refl (bound : Nat) (registry : ProjectRegistry) : registry.GrowsBy bound registry where
  remain known := ⟨_, known, .refl _⟩
  bounded := Nat.le_add_right _ _

theorem GrowsBy.trans (first : before.GrowsBy bound middle) (second : middle.GrowsBy more after) :
    before.GrowsBy (bound + more) after where
  remain known := by
    obtain ⟨later, found, remains⟩ := first.remain known
    obtain ⟨last, found, remained⟩ := second.remain found
    exact ⟨last, found, remains.trans remained⟩
  bounded := by
    have := first.bounded
    have := second.bounded
    omega

theorem GrowsBy.roots (grows : before.GrowsBy bound after) : before.roots <+: after.roots := by
  refine List.prefix_iff_getElem?.mpr fun i inside => ?_
  simp only [ProjectRegistry.roots, List.length_map] at inside
  obtain ⟨later, found, remains⟩ := grows.remain (List.getElem?_eq_getElem inside)
  simp [ProjectRegistry.roots, found, remains.root]

/-! ## Requests -/

/-- An orderly registry grows by no more than a number of projects, and it stays orderly. -/
def Extends (bound : Nat) (before after : ProjectRegistry) : Prop :=
  before.IsOrderly → before.GrowsBy bound after ∧ after.IsOrderly

theorem Extends.refl (bound : Nat) (registry : ProjectRegistry) : registry.Extends bound registry :=
  fun orderly => ⟨.refl bound registry, orderly⟩

theorem Extends.trans (first : before.Extends bound middle) (second : middle.Extends more after) :
    before.Extends (bound + more) after := by
  intro orderly
  obtain ⟨grows, orderly⟩ := first orderly
  obtain ⟨further, orderly⟩ := second orderly
  exact ⟨grows.trans further, orderly⟩

/-- A project that becomes known comes behind all others. -/
theorem extends_insert (new : project.root ∉ registry.roots) (sound : project.IsOrderly) :
    registry.Extends 1 (registry.insert project) := by
  intro orderly
  have known := projects_insert new
  refine ⟨⟨fun {i project} found => ?_, ?_⟩, fun project member => ?_⟩
  · have inside := (List.getElem?_eq_some_iff.mp found).1
    exact ⟨project, by rw [known, List.getElem?_append_left inside, found], .refl project⟩
  · rw [known, List.length_append, List.length_singleton]
  · rw [known] at member
    rcases List.mem_append.mp member with earlier | last
    · exact orderly project earlier
    · exact List.mem_singleton.mp last ▸ sound

theorem extends_register (registry : ProjectRegistry) (scripts : Script.Reader) (root : FilePath)
    (access : FileAccess) : registry.Extends 1 (registry.register scripts root access).1.2 := by
  cases found : registry.get? root with
  | some project =>
    rw [register, found]
    exact .refl 1 registry
  | none =>
    have new : root ∉ registry.roots := get?_eq_none.mp found
    rw [fst_register new]
    exact extends_insert new (Project.isOrderly_readAt scripts root access)

theorem extends_discover (registry : ProjectRegistry) (scripts : Script.Reader) (marker : String)
    (path : FilePath) (access : FileAccess) :
    registry.Extends 1 (registry.discover scripts marker path access).1.2 := by
  unfold discover
  cases registry.owner? path with
  | some project => exact .refl 1 registry
  | none =>
    simp only
    rw [bind_apply]
    cases (nearestMarked? marker path.parents access).1 with
    | some directory => exact registry.extends_register scripts directory _
    | none => exact .refl 1 registry

/-- A known project can be replaced by the same project with its modules. -/
theorem extends_replace (known : project ∈ registry.projects) (access : FileAccess) :
    registry.Extends 0 (registry.replace (project.withModules access).1.1) := by
  intro orderly
  have same {other : Project} (member : other ∈ registry.projects)
      (rooted : (other.root == (project.withModules access).1.1.root) = true) : other = project := by
    exact eq_of_root member known ((eq_of_beq rooted).trans (project.remains_withModules access).root)
  refine ⟨⟨fun {i other} found => ?_, ?_⟩, fun other member => ?_⟩
  · refine ⟨_, by rw [replace, List.getElem?_map, found, Option.map_some], ?_⟩
    split
    · rename_i rooted
      rw [same (List.mem_of_getElem? found) rooted]
      exact project.remains_withModules access
    · exact .refl other
  · simp [replace]
  · obtain ⟨earlier, found, rfl⟩ := List.mem_map.mp member
    split
    · exact (orderly project known).withModules access
    · exact orderly earlier found

/-- Projects that are read again at some of the known roots stay there and have not collected modules. The
others stay as they are. -/
theorem refreshed (scripts : Script.Reader) (places : List FilePath) (registry : ProjectRegistry)
    (access : FileAccess) :
    let later := (places.foldlM (refreshAt scripts) registry access).1
    later.roots = registry.roots ∧ ∀ project ∈ later.projects,
      (project.IsOrderly ∧ project.modules = none) ∨ (project ∈ registry.projects ∧ project.root ∉ places) := by
  induction places generalizing registry access with
  | nil => exact ⟨rfl, fun project member => .inr ⟨member, List.not_mem_nil⟩⟩
  | cons place places ih =>
    obtain ⟨roots, sound⟩ :=
      ih (registry.replace (Project.readAt scripts place access).1) (Project.readAt scripts place access).2
    rw [List.foldlM_cons]
    refine ⟨roots.trans roots_replace, fun project member => ?_⟩
    rcases sound project member with again | ⟨earlier, free⟩
    · exact .inl again
    · obtain ⟨known, found, rfl⟩ := List.mem_map.mp earlier
      by_cases here : known.root = place
      · have replaced : (known.root == (Project.readAt scripts place access).1.root) = true :=
          beq_iff_eq.mpr here
        rw [if_pos replaced]
        exact .inl ⟨Project.isOrderly_readAt scripts place access, rfl⟩
      · have kept : ¬ (known.root == (Project.readAt scripts place access).1.root) = true :=
          fun same => here (eq_of_beq same)
        rw [if_neg kept] at free ⊢
        exact .inr ⟨found, List.not_mem_cons_of_ne_of_not_mem here free⟩

theorem refresh_isOrderly (registry : ProjectRegistry) (access : FileAccess) :
    (registry.refresh scripts access).1.roots = registry.roots ∧
      (registry.refresh scripts access).1.IsOrderly ∧
        ∀ project ∈ (registry.refresh scripts access).1.projects, project.modules = none := by
  obtain ⟨roots, sound⟩ := refreshed scripts registry.roots registry access
  have all : ∀ project ∈ (registry.refresh scripts access).1.projects,
      project.IsOrderly ∧ project.modules = none := fun project member =>
    (sound project member).resolve_right fun ⟨earlier, free⟩ => free (List.mem_map_of_mem earlier)
  exact ⟨roots, fun project member => (all project member).1, fun project member => (all project member).2⟩

end ProjectRegistry

end EmberAssist
