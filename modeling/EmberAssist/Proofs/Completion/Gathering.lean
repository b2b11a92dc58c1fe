import EmberAssist.Proofs.Completion.Labels

/-! What is gathered in a context. Candidates are made unique by their labels in every listing and once more
when the listings are put together; this is the same as putting everything together that is listed and making
it unique once. So a component or a helper hides a name that templates know without a project. -/
namespace EmberAssist

namespace Candidate

variable {seen known : List String}

/-! ## Making candidates unique in stages -/

/-- Candidates that have been made unique, as far as some of the labels are known, are as good as they were
before. -/
theorem uniqueFrom_uniqueFrom_append (less : known ⊆ seen) (candidates behind : List Candidate) :
    uniqueFrom seen (uniqueFrom known candidates ++ behind) =
      uniqueFrom seen (candidates ++ behind) := by
  induction candidates generalizing seen known with
  | nil => rfl
  | cons first rest ih =>
    rw [List.cons_append, uniqueFrom, uniqueFrom]
    by_cases inKnown : known.contains first.label = true
    · have inSeen : seen.contains first.label = true := by
        simpa using less (by simpa using inKnown)
      rw [if_pos inKnown, if_pos inSeen, ih less]
    · rw [if_neg inKnown, List.cons_append, uniqueFrom]
      split
      · rename_i inSeen
        exact ih (List.cons_subset.mpr ⟨by simpa using inSeen, less⟩)
      · rw [ih (List.cons_subset_cons _ less)]

theorem uniqueFrom_append_uniqueFrom (less : known ⊆ seen) (before candidates behind : List Candidate) :
    uniqueFrom seen (before ++ (uniqueFrom known candidates ++ behind)) =
      uniqueFrom seen (before ++ (candidates ++ behind)) := by
  induction before generalizing seen with
  | nil => exact uniqueFrom_uniqueFrom_append less candidates behind
  | cons first rest ih =>
    rw [List.cons_append, List.cons_append, uniqueFrom, uniqueFrom, ih less,
      ih (List.subset_cons_of_subset _ less)]

/-- One of several listings can be made unique before they are put together. -/
theorem uniqueByLabel_append_uniqueByLabel (before candidates behind : List Candidate) :
    uniqueByLabel (before ++ (uniqueByLabel candidates ++ behind)) =
      uniqueByLabel (before ++ (candidates ++ behind)) :=
  uniqueFrom_append_uniqueFrom (List.nil_subset _) before candidates behind

theorem uniqueByLabel_uniqueByLabel_append (candidates behind : List Candidate) :
    uniqueByLabel (uniqueByLabel candidates ++ behind) = uniqueByLabel (candidates ++ behind) :=
  uniqueByLabel_append_uniqueByLabel [] candidates behind

/-! ## What unique candidates are -/

/-- The first candidate with a label. -/
def withLabel? (candidates : List Candidate) (name : String) : Option Candidate :=
  candidates.find? (·.label = name)

/-- At a place is a candidate with a label that is not among some labels and not before it. -/
def IsNewAt (seen : List String) (listed : List Candidate) (place : Nat) : Prop :=
  ∃ candidate, listed[place]? = some candidate ∧
    candidate.label ∉ seen ++ (listed.take place).map label

section
variable {first : Candidate} {rest listed : List Candidate} {place : Nat}

theorem isNewAt_zero : IsNewAt seen (first :: rest) 0 ↔ first.label ∉ seen := by
  simp [IsNewAt]

theorem isNewAt_succ :
    IsNewAt seen (first :: rest) (place + 1) ↔ IsNewAt (first.label :: seen) rest place := by
  simp [IsNewAt, and_left_comm]

theorem isNewAt_cons_of_mem {name : String} (old : name ∈ seen) :
    IsNewAt (name :: seen) listed place ↔ IsNewAt seen listed place := by
  unfold IsNewAt
  refine exists_congr fun candidate => and_congr_right fun _ => not_congr ?_
  rw [List.cons_append, List.mem_cons]
  exact or_iff_right_of_imp fun same => List.mem_append_left _ (same ▸ old)

end

/-- Unique candidates are told place by place. -/
theorem exists_places_uniqueFrom (seen : List String) (listed : List Candidate) :
    ∃ places : List Nat, places.Pairwise (· < ·) ∧
      (uniqueFrom seen listed).map some = places.map (listed[·]?) ∧
      ∀ place, place ∈ places ↔ IsNewAt seen listed place := by
  induction listed generalizing seen with
  | nil => exact ⟨[], .nil, rfl, by simp [IsNewAt]⟩
  | cons first rest ih =>
    have shifted (places : List Nat) :
        (places.map (· + 1)).map ((first :: rest)[·]?) = places.map (rest[·]?) := by
      rw [List.map_map]
      rfl
    rw [uniqueFrom]
    split
    · rename_i old
      rw [List.contains_iff_mem] at old
      obtain ⟨places, growing, told, new⟩ := ih seen
      refine ⟨places.map (· + 1), growing.map _ fun _ _ => Nat.succ_lt_succ, ?_, fun place => ?_⟩
      · rw [told, shifted]
      · cases place with
        | zero => simp [isNewAt_zero, old]
        | succ place => simp [isNewAt_succ, isNewAt_cons_of_mem old, new]
    · rename_i fresh
      rw [List.contains_iff_mem] at fresh
      obtain ⟨places, growing, told, new⟩ := ih (first.label :: seen)
      refine ⟨0 :: places.map (· + 1), List.pairwise_cons.mpr ⟨by simp, ?_⟩, ?_, fun place => ?_⟩
      · exact growing.map _ fun _ _ => Nat.succ_lt_succ
      · rw [List.map_cons, told, List.map_cons, shifted, List.getElem?_cons_zero]
      · cases place with
        | zero => simp [isNewAt_zero, fresh]
        | succ place => simp [isNewAt_succ, new]

/-- The first candidate with a label is kept. -/
theorem withLabel?_uniqueFrom {name : String} (unseen : name ∉ seen) (listed : List Candidate) :
    withLabel? (uniqueFrom seen listed) name = withLabel? listed name := by
  induction listed generalizing seen with
  | nil => rfl
  | cons first rest ih =>
    rw [uniqueFrom]
    by_cases same : first.label = name
    · subst same
      simp [withLabel?, unseen]
    · have kept := ih unseen
      have added : withLabel? (uniqueFrom (first.label :: seen) rest) name = withLabel? rest name :=
        ih (by simp [Ne.symm same, unseen])
      have behind (others : List Candidate) :
          withLabel? (first :: others) name = withLabel? others name := by
        simp [withLabel?, same]
      split
      · rw [kept, behind]
      · rw [behind, behind, added]

/-- Some candidates are what others come down to when every label is to occur once: they have the same labels,
each of them once, they are the first with their labels, and they are in the order in which the first ones
are. -/
structure Unifies (offered listed : List Candidate) : Prop where
  distinct : Distinct offered
  labels : ∀ name, name ∈ offered.map label ↔ name ∈ listed.map label
  first : ∀ name, withLabel? offered name = withLabel? listed name
  ordered : ∃ places : List Nat, places.Pairwise (· < ·) ∧
    offered.map some = places.map (listed[·]?) ∧ ∀ place, place ∈ places ↔ IsNewAt [] listed place

theorem mem_labels_iff {candidates : List Candidate} {name : String} :
    name ∈ candidates.map label ↔ (withLabel? candidates name).isSome := by
  simp [withLabel?]

theorem unifies_uniqueByLabel (listed : List Candidate) : Unifies (uniqueByLabel listed) listed where
  distinct := distinct_uniqueByLabel listed
  labels name := by
    rw [mem_labels_iff, mem_labels_iff, uniqueByLabel, withLabel?_uniqueFrom List.not_mem_nil]
  first name := withLabel?_uniqueFrom List.not_mem_nil listed
  ordered := exists_places_uniqueFrom [] listed

end Candidate

namespace Completion

open Candidate
open Template (Context)

/-! ## Listings -/

/-- A candidate for every file of a component: those below one directory after those below the other. -/
def enumerateComponents (root : FilePath) : FileReader (List Candidate) := do
  let listings ← (componentDirectories root).mapM listFiles
  return listings.flatten.filterMap ofComponentFile?

/-- A candidate for every file of a helper. -/
def enumerateHelpers (root : FilePath) : FileReader (List Candidate) := do
  return (← listFiles (helperDirectory root)).filterMap ofHelperFile?

/-- Everything that is listed in a context, in its order and with all repetitions. -/
def enumerate (context : Context) (root : FilePath) (modules : List AppModule) :
    FileReader (List Candidate) := do
  let listed ←
    match context with
    | .mustache => do pure ((← enumerateComponents root) ++ (← enumerateHelpers root))
    | .block => enumerateComponents root
    | .subExpression => enumerateHelpers root
    | .link => pure (modules.filterMap ofRoute?)
    | .none => pure []
  return listed ++ keywords context

/-- The same files are listed whether candidates are made unique in every listing or once in the end, and the
same candidates are left. -/
theorem gather_eq (context : Context) (root : FilePath) (modules : List AppModule) :
    gather context root modules = uniqueByLabel <$> enumerate context root modules := by
  refine funext fun access => ?_
  cases context with
  | mustache =>
    have once (components helpers : List Candidate) :
        uniqueByLabel (uniqueByLabel components ++ uniqueByLabel helpers ++ keywords .mustache) =
          uniqueByLabel (components ++ helpers ++ keywords .mustache) := by
      rw [List.append_assoc, uniqueByLabel_uniqueByLabel_append, uniqueByLabel_append_uniqueByLabel,
        List.append_assoc]
    exact Prod.ext (once _ _) rfl
  | block | subExpression | link => exact Prod.ext (uniqueByLabel_uniqueByLabel_append _ _) rfl
  | none => rfl

/-- What is offered in a context is everything that is listed there, made unique once: every label that is
listed comes once, with the first candidate that is listed with it, and the candidates are in the order in
which they are listed. -/
theorem gather_unifies (context : Context) (root : FilePath) (modules : List AppModule)
    (access : FileAccess) :
    gather context root modules = uniqueByLabel <$> enumerate context root modules ∧
      Unifies (gather context root modules access).1 (enumerate context root modules access).1 := by
  have same := gather_eq context root modules
  refine ⟨same, ?_⟩
  rw [same]
  exact unifies_uniqueByLabel _

/-- A component hides the name of a block. -/
example :
    let files : FileSource := ⟨fun directory =>
      if directory.name = "components".toList then ["if.js", "if.hbs"] else [], fun _ => none⟩
    (gather .block (.ofString "/p") [] (.direct files)).1 =
      ⟨.class, "if", "component", none⟩ :: (blockKeywords.erase "if").map ofKeyword := by
  decide +kernel

end Completion

end EmberAssist
