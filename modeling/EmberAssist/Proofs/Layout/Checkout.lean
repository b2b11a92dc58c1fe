import EmberAssist.Layout.Classifier
import EmberAssist.Proofs.Text

/-! What the place of a project has to do with its modules. Which of its files are modules, and of which
kind, is told from the path below the root alone. A feature or the directory that features share is
looked for in the whole path, so that the directories above a project can change all of its names. -/
namespace EmberAssist.Layout

open Text

variable {root rest : List Char}

theorem withSlashes_of_notMem {chars : List Char} (plain : '\\' ∉ chars) : withSlashes chars = chars := by
  have same (c : Char) (member : c ∈ chars) : (if c = '\\' then '/' else c) = c :=
    if_neg (by rintro rfl; exact plain member)
  rw [withSlashes, List.map_congr_left same, List.map_id']

theorem notMem_withSlashes (path : List Char) : '\\' ∉ withSlashes path := by
  unfold withSlashes
  rw [List.mem_map]
  rintro ⟨c, -, same⟩
  split at same
  · cases same
  · exact absurd same ‹_›

theorem withSlashes_append (front back : List Char) (c : Char) :
    withSlashes (front ++ c :: back) =
      withSlashes front ++ (if c = '\\' then '/' else c) :: withSlashes back := by
  simp [withSlashes]

theorem withSlashes_append_slash (front back : List Char) :
    withSlashes (front ++ '/' :: back) = withSlashes front ++ '/' :: withSlashes back := by
  rw [withSlashes_append, if_neg (by decide)]

theorem count_withSlashes {c : Char} (slash : c ≠ '/') (backslash : c ≠ '\\') (chars : List Char) :
    (withSlashes chars).count c = chars.count c := by
  unfold withSlashes
  induction chars with
  | nil => rfl
  | cons d chars ih =>
    rw [List.map_cons, List.count_cons, List.count_cons, ih]
    by_cases same : d = '\\'
    · simp [same, slash.symm, backslash.symm]
    · simp [same]

/-- The extensions of scripts and templates are made of a dot and of letters. -/
theorem exists_letters {extension : List Char} (member : extension ∈ moduleExtensions) :
    ∃ letters, extension = '.' :: letters ∧ letters ≠ [] ∧ '.' ∉ letters ∧ '/' ∉ letters ∧ '\\' ∉ letters := by
  have plain : ∀ extension ∈ moduleExtensions, extension = '.' :: extension.tail ∧ extension.tail ≠ [] ∧
      '.' ∉ extension.tail ∧ '/' ∉ extension.tail ∧ '\\' ∉ extension.tail := by decide
  exact ⟨extension.tail, plain extension member⟩

/-! ## Below the root -/

/-- A root is written without a slash at its end. -/
def IsOpenEnded (root : List Char) : Prop := (withSlashes root).getLast? ≠ some '/'

instance : Decidable (IsOpenEnded root) :=
  inferInstanceAs (Decidable ((withSlashes root).getLast? ≠ some '/'))

theorem trimRoot_of_isOpenEnded (ended : IsOpenEnded root) : trimRoot root = withSlashes root := by
  unfold IsOpenEnded at ended
  unfold trimRoot trimEnd
  rw [List.getLast?_eq_head?_reverse] at ended
  cases reversed : (withSlashes root).reverse with
  | nil => simpa using reversed.symm
  | cons c chars =>
    rw [reversed, List.head?_cons, Ne, Option.some.injEq] at ended
    rw [List.dropWhile_cons_of_neg (by simpa using ended), ← reversed, List.reverse_reverse]

/-- The path below the root is the same wherever the root is. -/
theorem relativeTo_below (ended : IsOpenEnded root) (rest : List Char) :
    relativeTo (trimRoot root) (root ++ '/' :: rest) = '/' :: withSlashes rest := by
  have led : withLeadingSlash ('/' :: withSlashes rest) = '/' :: withSlashes rest := by
    simp [withLeadingSlash, startsWith]
  have inside : startsWith (withSlashes root ++ '/' :: withSlashes rest)
      (withSlashes root ++ ['/']) = true := startsWith_iff.mpr ⟨withSlashes rest, by simp⟩
  unfold relativeTo
  rw [trimRoot_of_isOpenEnded ended, withSlashes_append_slash]
  simp only [inside, List.drop_left, led, Bool.and_true]
  cases withSlashes root with
  | nil => simpa using led
  | cons c chars => simp

theorem classicModule?_below (ended : IsOpenEnded root) (rest : List Char) :
    classicModule? root (root ++ '/' :: rest) = classicModule? [] ('/' :: rest) := by
  have top : IsOpenEnded [] := by decide
  unfold classicModule?
  rw [relativeTo_below ended, ← relativeTo_below top, List.nil_append]

theorem podModule?_below (ended : IsOpenEnded root) (podPrefix rest : List Char) :
    podModule? root podPrefix (root ++ '/' :: rest) = podModule? [] podPrefix ('/' :: rest) := by
  have top : IsOpenEnded [] := by decide
  unfold podModule?
  rw [relativeTo_below ended, ← relativeTo_below top, List.nil_append]

/-- The module at a path before it is named after features, and whether it is in the pod layout. -/
def plainModule? (root podPrefix path : List Char) : Option (AppModule × Bool) :=
  match classicModule? root path with
  | some found => some (found, false)
  | none => (podModule? root podPrefix path).map fun found => (found, true)

theorem classify_eq (layout : ProjectLayout) (path : String) : layout.classify path =
    (plainModule? layout.root.toList layout.podPrefix.toList path.toList).map fun (found, pod) =>
      renamed found path.toList pod := by
  unfold ProjectLayout.classify plainModule?
  simp only
  cases classicModule? layout.root.toList path.toList with
  | some found => rfl
  | none => simp [Option.map_map, Function.comp_def]

/-- A module that is not yet named after features does not depend on the root. -/
theorem classify_below {root : String} (ended : IsOpenEnded root.toList) (podPrefix rest : String) :
    ProjectLayout.classify ⟨root, podPrefix⟩ (root ++ "/" ++ rest) =
      (plainModule? [] podPrefix.toList ('/' :: rest.toList)).map fun (found, pod) =>
        renamed found (root.toList ++ '/' :: rest.toList) pod := by
  have path : (root ++ "/" ++ rest).toList = root.toList ++ '/' :: rest.toList := by simp
  rw [classify_eq, path]
  unfold plainModule?
  rw [classicModule?_below ended, podModule?_below ended]

/-! ## Above the root -/

/-- No directory of features, nor one that they share, begins in the root. -/
def IsApart (root rest : List Char) : Prop :=
  ∀ marker ∈ [featuresMarker ++ ['/'], sharedMarker],
    ¬ BeginsIn marker (lower (withSlashes root)) ('/' :: lower (withSlashes rest))

instance : Decidable (IsApart root rest) :=
  inferInstanceAs (Decidable (∀ marker ∈ [featuresMarker ++ ['/'], sharedMarker],
    ¬ BeginsIn marker (lower (withSlashes root)) ('/' :: lower (withSlashes rest))))

theorem lower_below (root rest : List Char) : lower (withSlashes (root ++ '/' :: rest)) =
    lower (withSlashes root) ++ '/' :: lower (withSlashes rest) := by
  rw [withSlashes_append_slash, lower_append]

/-- Below a root that is apart, a module is named by the path below the root. Only dotted capital I's
above it still count, as they get longer in lower case. -/
theorem renamed_below (apart : IsApart root rest) (found : AppModule) (pod : Bool) :
    renamed found (root ++ '/' :: rest) pod =
      let below := '/' :: withSlashes rest
      let name :=
        match find? (featuresMarker ++ ['/']) ('/' :: lower (withSlashes rest)) with
        | some index =>
          featureName pod (below.drop (index + root.count 'İ' + featuresMarker.length))
        | none => found.name
      { found with name :=
          if occursIn sharedMarker ('/' :: lower (withSlashes rest)) then "shared/".toList ++ name
          else name } := by
  have features := find?_append (apart _ List.mem_cons_self)
  have shared := occursIn_append (apart _ (List.mem_cons_of_mem _ List.mem_cons_self))
  have cut (index : Nat) : (withSlashes (root ++ '/' :: rest)).drop
      (index + (lower (withSlashes root)).length + featuresMarker.length) =
        ('/' :: withSlashes rest).drop (index + root.count 'İ' + featuresMarker.length) := by
    have behind : index + (lower (withSlashes root)).length + featuresMarker.length =
        (withSlashes root).length + (index + root.count 'İ' + featuresMarker.length) := by
      rw [length_lower, count_withSlashes (by decide) (by decide)]
      omega
    rw [withSlashes_append_slash, behind, List.drop_length_add_append]
  unfold renamed
  simp only [lower_below, features, shared]
  cases find? (featuresMarker ++ ['/']) ('/' :: lower (withSlashes rest)) with
  | none => rfl
  | some index => simp only [Option.map_some, cut]

/-- Roots that do not lead through a directory that is called `app` in any case are apart from all that is
below them. -/
theorem isApart_of_no_app (free : ¬ "/app/".toList <:+: lower (withSlashes root) ++ ['/'])
    (rest : List Char) : IsApart root rest := by
  have both : ∀ marker ∈ [featuresMarker ++ ['/'], sharedMarker], "/app/".toList <+: marker := by
    decide
  rintro marker member ⟨i, inside, found⟩
  have app := (both marker member).trans found
  have within : i ≤ (lower (withSlashes root)).length := Nat.le_of_lt inside
  rw [List.drop_append_of_le_length within, List.drop_eq_getElem_cons inside, List.cons_append] at app
  obtain ⟨slash, app⟩ := List.cons_prefix_cons.mp app
  have whole : '/' ∉ "app".toList := by decide
  have ends : "app/".toList <+: (lower (withSlashes root)).drop (i + 1) ++ ['/'] :=
    prefix_of_delimited whole app
  apply free
  refine .trans (List.cons_prefix_cons.mpr ⟨slash, ends⟩).isInfix ?_
  rw [← List.cons_append, ← List.drop_eq_getElem_cons inside, ← List.drop_append_of_le_length within]
  exact (List.drop_suffix i _).isInfix

/-- Wherever a project is, its modules are of the same kinds. They have the same names at two places that
are apart from what is below them and hold the same number of dotted capital I's. -/
theorem classify_of_checkout (podPrefix : String) {here there rest : String}
    (hereEnded : IsOpenEnded here.toList) (thereEnded : IsOpenEnded there.toList) :
    let found (root : String) := (PathClassifier.mk ⟨root, podPrefix⟩).classify (root ++ "/" ++ rest)
    (found here).map AppModule.kind = (found there).map AppModule.kind ∧
      (IsApart here.toList rest.toList → IsApart there.toList rest.toList →
        here.toList.count 'İ' = there.toList.count 'İ' → found here = found there) := by
  intro found
  have hereFound : found here = _ := classify_below hereEnded podPrefix rest
  have thereFound : found there = _ := classify_below thereEnded podPrefix rest
  rw [hereFound, thereFound]
  constructor
  · rw [Option.map_map, Option.map_map]
    rfl
  · intro hereApart thereApart count
    refine Option.map_congr fun ⟨plain, pod⟩ _ => ?_
    simp only
    rw [renamed_below hereApart, renamed_below thereApart, count]

theorem classify_of_checkout_beside_app :
    let found (root : String) :=
      (PathClassifier.mk ⟨root, "app/pods"⟩).classify (root ++ "/" ++ "app/features/mail/helpers/sort.js")
    IsOpenEnded "/p".toList ∧ IsOpenEnded "/w/app/q".toList ∧
      IsApart "/p".toList "app/features/mail/helpers/sort.js".toList ∧
      IsApart "/w/app/q".toList "app/features/mail/helpers/sort.js".toList ∧
      found "/p" = some ⟨"feature/mail/helpers".toList, .helper⟩ ∧ found "/p" = found "/w/app/q" := by
  intro found
  have hereEnded : IsOpenEnded "/p".toList := by decide
  have thereEnded : IsOpenEnded "/w/app/q".toList := by decide
  have hereApart : IsApart "/p".toList "app/features/mail/helpers/sort.js".toList :=
    isApart_of_no_app (by decide) _
  have thereApart : IsApart "/w/app/q".toList "app/features/mail/helpers/sort.js".toList := by
    decide +kernel
  exact ⟨hereEnded, thereEnded, hereApart, thereApart, by decide +kernel,
    (classify_of_checkout _ hereEnded thereEnded).2 hereApart thereApart (by decide)⟩

/-- A project below a directory that features share has all of its modules named as shared. -/
theorem shared_of_checkout (podPrefix : String) {root rest : String} {found : AppModule}
    (ended : IsOpenEnded root.toList)
    (shared : sharedMarker <:+: lower (withSlashes root.toList) ++ ['/'])
    (classified : ProjectLayout.classify ⟨root, podPrefix⟩ (root ++ "/" ++ rest) = some found) :
    "shared/".toList <+: found.name := by
  have below : occursIn sharedMarker
      (lower (withSlashes (root.toList ++ '/' :: rest.toList))) = true := by
    rw [lower_below, occursIn_iff, ← List.singleton_append, ← List.append_assoc]
    exact shared.trans (List.prefix_append _ _).isInfix
  rw [classify_below ended] at classified
  obtain ⟨⟨plain, pod⟩, -, rfl⟩ := Option.map_eq_some_iff.mp classified
  simp only [renamed, below, if_true]
  exact List.prefix_append _ _

/-- The same helper has two names, as one of the projects is below a directory that features share. -/
theorem helper_named_after_checkout :
    let helper := "app/helpers/shout.js"
    let found (root : String) := (PathClassifier.mk ⟨root, "app"⟩).classify (root ++ "/" ++ helper)
    (∀ root ∈ ["/p", "/w/app/shared/p"], (FilePath.ofString root).text = root ∧
      (FilePath.ofString root).isAbsolute = true ∧ IsOpenEnded root.toList) ∧
    found "/p" = some ⟨"shout".toList, .helper⟩ ∧
    found "/w/app/shared/p" = some ⟨"shared/shout".toList, .helper⟩ := by
  decide +kernel

end EmberAssist.Layout
