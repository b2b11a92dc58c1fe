import EmberAssist.Proofs.Layout.Folders

/-! The names of modules in features. They are cut out of a path behind the directory of features, at an index
that is counted in the path in lower case. So they depend on what is below that directory, and on how many dotted
capital I's are above it. Cutting off the file, and the directory of a pod, can leave nothing of the name. -/
namespace EmberAssist.Layout

open Text

variable {path path' above above' marker marker' below : List Char}

/-! ## Where features are -/

/-- A path enters the directory of features, in any letter case, for the first time. -/
structure EntersFeatures (path above marker below : List Char) : Prop where
  written : withSlashes path = above ++ (marker ++ '/' :: below)
  marked : marker.map Char.toLower = featuresMarker
  first : ∀ i < above.length, ¬ Spells (featuresMarker ++ ['/']) ((withSlashes path).drop i)

/-- A path leads through the directory that features share, in any letter case. -/
def IsShared (path : List Char) : Prop := ∃ i, Spells sharedMarker ((withSlashes path).drop i)

theorem isPlain_of_mem {c : Char} (member : c ∈ featuresMarker ++ ['/'] ++ sharedMarker) : IsPlain c := by
  have plain : (featuresMarker ++ ['/'] ++ sharedMarker).all (decide <| IsPlain ·) = true := by decide +kernel
  exact of_decide_eq_true (List.all_eq_true.mp plain c member)

theorem occursIn_sharedMarker : occursIn sharedMarker (lower (withSlashes path)) = true ↔ IsShared path :=
  occursIn_lowerAfter_iff (fun _ member => isPlain_of_mem (List.mem_append_right _ member)) (by decide) []

theorem EntersFeatures.firstSpelled (enters : EntersFeatures path above marker below) :
    FirstSpelled (featuresMarker ++ ['/']) above (marker ++ '/' :: below) := by
  obtain ⟨written, marked, first⟩ := enters
  constructor
  · have length : (featuresMarker ++ ['/']).length = (marker ++ ['/']).length := by
      rw [← marked]
      simp
    have cut : marker ++ '/' :: below = (marker ++ ['/']) ++ below := by simp
    rw [Spells, length, cut, List.take_left, List.map_append, marked]
    rfl
  · rw [← written]
    exact first

/-- The directory of features is found where a path enters it, but for the dotted capital I's above. -/
theorem EntersFeatures.find? (enters : EntersFeatures path above marker below) :
    find? (featuresMarker ++ ['/']) (lower (withSlashes path)) = some (above.length + above.count 'İ') := by
  rw [enters.written]
  exact enters.firstSpelled.find?_lowerAfter
    (fun _ member => isPlain_of_mem (List.mem_append_left _ member)) (by decide) []

theorem EntersFeatures.drop (enters : EntersFeatures path above marker below) :
    (withSlashes path).drop (above.length + above.count 'İ' + featuresMarker.length) =
      ('/' :: below).drop (above.count 'İ') := by
  have length : featuresMarker.length = marker.length := by rw [← enters.marked, List.length_map]
  have behind : above.length + above.count 'İ' + featuresMarker.length =
      above.length + (marker.length + above.count 'İ') := by omega
  rw [enters.written, behind, List.drop_length_add_append, List.drop_length_add_append]

/-- A path in which the directory of features is found enters it. -/
theorem exists_entersFeatures {index : Nat}
    (found : Text.find? (featuresMarker ++ ['/']) (lower (withSlashes path)) = some index) :
    ∃ above marker below, EntersFeatures path above marker below := by
  have plain : ∀ c ∈ featuresMarker ++ ['/'], IsPlain c :=
    fun _ member => isPlain_of_mem (List.mem_append_left _ member)
  have filled : featuresMarker ++ ['/'] ≠ [] := by decide
  rcases exists_firstSpelled filled (withSlashes path) with absent | ⟨above, rest, written, here, first⟩
  · rw [lower, find?_lowerAfter_eq_none absent plain filled] at found
    cases found
  · rw [← written] at first
    have marked : (rest.take (featuresMarker.length + 1)).map Char.toLower = featuresMarker ++ ['/'] := here
    obtain ⟨marker, slash, cut, spelled, closed⟩ := List.map_eq_append_iff.mp marked
    obtain ⟨c, rfl, same⟩ := List.map_eq_singleton_iff.mp closed
    obtain rfl := toLower_eq_slash.mp same
    refine ⟨above, marker, rest.drop (featuresMarker.length + 1), ?_, spelled, first⟩
    rw [written, ← List.singleton_append, ← List.append_assoc marker, ← cut, List.take_append_drop]

/-! ## What is cut out -/

theorem join_eq_nil_iff {pieces : List (List Char)} : join ['/'] pieces = [] ↔ pieces = [] ∨ pieces = [[]] := by
  match pieces with
  | [] => simp [join]
  | [piece] => simp [join]
  | piece :: next :: pieces => simp [join]

theorem exists_first_piece (tail : List Char) :
    ∃ piece pieces, splitOn '/' ("feature".toList ++ tail) = piece :: pieces ∧ piece ≠ [] := by
  have letters : "feature".toList ++ tail = 'f' :: ("eature".toList ++ tail) := rfl
  obtain ⟨piece, pieces, cut⟩ := List.exists_cons_of_ne_nil (splitOn_ne_nil '/' ("eature".toList ++ tail))
  refine ⟨'f' :: piece, pieces, ?_, List.cons_ne_nil _ _⟩
  rw [letters, splitOn, if_neg (by decide), cut]

/-- Nothing is left of a name that has too few slashes. -/
theorem featureName_eq_nil_iff (pod : Bool) (suffix : List Char) : featureName pod suffix = [] ↔
    (replace "/components/".toList ['/'] suffix).count '/' < if pod then 2 else 1 := by
  unfold featureName
  simp only
  generalize replace "/components/".toList ['/'] suffix = tail
  have length : (splitOn '/' ("feature".toList ++ tail)).length = tail.count '/' + 1 := by
    rw [length_splitOn, List.count_append, List.count_eq_zero_of_not_mem (by decide), Nat.zero_add]
  obtain ⟨piece, pieces, cut, filled⟩ := exists_first_piece tail
  rw [join_eq_nil_iff, length, cut]
  generalize (if pod = true then 2 else 1) = last
  constructor
  · rintro (short | empty)
    · simp at short
      omega
    · cases kept : tail.count '/' + 1 - last with
      | zero => simp [kept] at empty
      | succ count =>
        rw [kept, List.take_succ_cons, List.cons.injEq] at empty
        exact absurd empty.1 filled
  · intro few
    left
    rw [Nat.sub_eq_zero_of_le few, List.take_zero]

/-! ## Names -/

/-- What is below the directory of features names a module. Of what is above it only dotted capital I's count, and
whether it is shared. -/
theorem EntersFeatures.renamed (enters : EntersFeatures path above marker below) (found : AppModule)
    (pod : Bool) : (renamed found path pod).name =
      let name := featureName pod (('/' :: below).drop (above.count 'İ'))
      if occursIn sharedMarker (lower (withSlashes path)) then "shared/".toList ++ name else name := by
  unfold Layout.renamed
  simp only [enters.find?, enters.drop]

/-- A module that is not in a feature keeps its name. -/
theorem renamed_of_find? (absent : Text.find? (featuresMarker ++ ['/']) (lower (withSlashes path)) = none)
    (found : AppModule) (pod : Bool) : (renamed found path pod).name =
      if occursIn sharedMarker (lower (withSlashes path)) then "shared/".toList ++ found.name
      else found.name := by
  unfold Layout.renamed
  simp only [absent]

/-- A name, and the name with a mark that it is shared. -/
def upToShared (name : List Char) : List (List Char) := [name, "shared/".toList ++ name]

/-- A name is cut out of what is below the directory of features, too far to the right by as many characters as
there are dotted capital I's above. Behind as many of them, what is below alone tells the name but for a mark that
the module is shared. -/
theorem renamed_of_entersFeatures (enters : EntersFeatures path above marker below)
    (enters' : EntersFeatures path' above' marker' below) (found found' : AppModule) (pod : Bool) :
    (renamed found path pod).name ∈ upToShared (featureName pod (('/' :: below).drop (above.count 'İ'))) ∧
      (above.count 'İ' = above'.count 'İ' → ∃ name,
        (renamed found path pod).name ∈ upToShared name ∧ (renamed found' path' pod).name ∈ upToShared name) := by
  have cut {path above marker : List Char} (enters : EntersFeatures path above marker below)
      (found : AppModule) : (renamed found path pod).name ∈
        upToShared (featureName pod (('/' :: below).drop (above.count 'İ'))) := by
    rw [enters.renamed]
    simp only
    split
    · exact List.mem_cons_of_mem _ List.mem_cons_self
    · exact List.mem_cons_self
  refine ⟨cut enters found, fun same => ⟨_, cut enters found, ?_⟩⟩
  rw [same]
  exact cut enters' found'

theorem renamed_of_entersFeatures_any_case :
    let here := "/p/app/features/mail/helpers/sort.js".toList
    let there := "/w/App/Features/mail/helpers/sort.js".toList
    ∃ name, (renamed ⟨"sort".toList, .helper⟩ here false).name ∈ upToShared name ∧
      (renamed ⟨"sort".toList, .helper⟩ there false).name ∈ upToShared name := by
  intro here there
  have enters : EntersFeatures here "/p".toList "/app/features".toList "mail/helpers/sort.js".toList :=
    ⟨by decide, by decide, by decide⟩
  have enters' : EntersFeatures there "/w".toList "/App/Features".toList "mail/helpers/sort.js".toList :=
    ⟨by decide, by decide, by decide⟩
  exact (renamed_of_entersFeatures enters enters' _ _ false).2 rfl

/-- Behind a dotted capital I the slash before a feature is lost. -/
theorem name_behind_dotted_capital :
    let below := "mail/sort.js".toList
    let helper : AppModule := ⟨"sort".toList, .helper⟩
    EntersFeatures ("/p/app/features/".toList ++ below) "/p".toList "/app/features".toList below ∧
      EntersFeatures ("/İ/app/features/".toList ++ below) "/İ".toList "/app/features".toList below ∧
      (renamed helper ("/p/app/features/".toList ++ below) false).name = "feature/mail".toList ∧
      (renamed helper ("/İ/app/features/".toList ++ below) false).name = "featuremail".toList := by
  intro below helper
  refine ⟨⟨by decide, by decide, by decide⟩, ⟨by decide, by decide, by decide⟩, ?_, ?_⟩ <;> decide +kernel

/-! ## Modules without names -/

theorem name_ne_nil_of_moduleOfPod? {kind : ModuleKind} {part : List Char} {found : AppModule}
    (named : moduleOfPod? kind part = some found) : found.name ≠ [] := by
  unfold moduleOfPod? at named
  simp only [Option.ite_none_left_eq_some, List.isEmpty_iff] at named
  obtain ⟨filled, same⟩ := named
  rwa [← Option.some.inj same]

/-- Before it is named after a feature, every module has a name. -/
theorem name_ne_nil_of_plainModule? {root podPrefix : List Char} {found : AppModule} {pod : Bool}
    (plain : plainModule? root podPrefix path = some (found, pod)) : found.name ≠ [] := by
  obtain ⟨folder, base, file⟩ := exists_isFile root path
  rw [plainModule?_of_isFile file] at plain
  simp only [Option.ite_none_right_eq_some] at plain
  obtain ⟨member, plain⟩ := plain
  have extended : (FilePath.splitExtension base).2 ≠ [] := by
    obtain ⟨letters, dotted, -⟩ := exists_letters member
    rw [dotted]
    exact List.cons_ne_nil _ _
  unfold moduleIn? at plain
  simp only [Option.ite_none_left_eq_some] at plain
  obtain ⟨-, plain⟩ := plain
  split at plain
  · obtain ⟨⟨between, kind⟩, -, cut⟩ := Option.map_eq_some_iff.mp plain
    obtain ⟨rfl, -⟩ := Prod.mk.inj cut
    rw [Ne, join_eq_nil_iff]
    rintro (short | empty)
    · exact List.append_ne_nil_of_right_ne_nil _ (List.cons_ne_nil _ _) short
    · have last := congrArg List.getLast? empty
      rw [List.getLast?_concat, List.getLast?_singleton] at last
      exact FilePath.stem_ne_nil extended (Option.some.inj last)
  · obtain ⟨named, isNamed, cut⟩ := Option.map_eq_some_iff.mp plain
    obtain ⟨rfl, -⟩ := Prod.mk.inj cut
    obtain ⟨part, -, inPod⟩ := Option.bind_eq_some_iff.mp isNamed
    exact name_ne_nil_of_moduleOfPod? inPod

theorem pod_of_plainModule? {root podPrefix : List Char} {found : AppModule} {pod : Bool}
    (plain : plainModule? root podPrefix path = some (found, pod)) :
    pod = !(classicModule? root path).isSome := by
  unfold plainModule? at plain
  split at plain
  · rename_i classic
    obtain ⟨-, rfl⟩ := Prod.mk.inj (Option.some.inj plain)
    rw [classic]
    rfl
  · rename_i classic
    obtain ⟨named, -, cut⟩ := Option.map_eq_some_iff.mp plain
    obtain ⟨-, rfl⟩ := Prod.mk.inj cut
    rw [classic]
    rfl

/-- A module has no name where it is not shared and its path has too few slashes behind the directory of features:
a name in the classic layout takes one, and one in the pod layout takes two, as the directory of the pod is cut
off. -/
theorem name_eq_nil_iff {classifier : PathClassifier} {path : String} {found : AppModule}
    (classified : classifier.classify path = some found) : found.name = [] ↔ ¬ IsShared path.toList ∧
      ∃ above marker below, EntersFeatures path.toList above marker below ∧
        (replace "/components/".toList ['/'] (('/' :: below).drop (above.count 'İ'))).count '/' <
          if (classicModule? classifier.layout.root.toList path.toList).isSome then 1 else 2 := by
  rw [PathClassifier.classify, classify_eq] at classified
  obtain ⟨⟨plain, pod⟩, isPlain, rfl⟩ := Option.map_eq_some_iff.mp classified
  have slashes : (if (classicModule? classifier.layout.root.toList path.toList).isSome then 1 else 2) =
      if pod then 2 else 1 := by
    rw [pod_of_plainModule? isPlain]
    cases (classicModule? classifier.layout.root.toList path.toList).isSome <;> rfl
  rw [slashes, ← occursIn_sharedMarker]
  simp only [← featureName_eq_nil_iff]
  constructor
  · intro nameless
    cases isFound : Text.find? (featuresMarker ++ ['/']) (lower (withSlashes path.toList)) with
    | none =>
      rw [renamed_of_find? isFound] at nameless
      split at nameless
      · cases nameless
      · exact absurd nameless (name_ne_nil_of_plainModule? isPlain)
    | some index =>
      obtain ⟨above, marker, below, enters⟩ := exists_entersFeatures isFound
      rw [enters.renamed] at nameless
      simp only at nameless
      split at nameless
      · cases nameless
      · exact ⟨‹_›, above, marker, below, enters, nameless⟩
  · rintro ⟨unshared, above, marker, below, enters, empty⟩
    rw [enters.renamed, if_neg unshared]
    exact empty

theorem name_eq_nil_right_in_features :
    let classifier : PathClassifier := ⟨⟨"/p", "app"⟩⟩
    classifier.classify "/p/app/features/route.js" = some ⟨[], .route⟩ ∧
      ∃ above marker below, EntersFeatures "/p/app/features/route.js".toList above marker below := by
  intro classifier
  have classified : classifier.classify "/p/app/features/route.js" = some ⟨[], .route⟩ := by decide +kernel
  obtain ⟨-, above, marker, below, enters, -⟩ := (name_eq_nil_iff classified).mp rfl
  exact ⟨classified, above, marker, below, enters⟩

/-- The route of all features has no name. -/
theorem nameless_route : ∃ classifier path found, PathClassifier.classify classifier path = some found ∧
    found.name = [] :=
  ⟨⟨⟨"/p", "app"⟩⟩, "/p/app/features/route.js", ⟨[], .route⟩, by decide +kernel, rfl⟩

end EmberAssist.Layout
