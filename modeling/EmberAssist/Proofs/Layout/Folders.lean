import EmberAssist.Proofs.Layout.Checkout
import EmberAssist.Proofs.PathName
import EmberAssist.Proofs.Text.AnyCase
import EmberAssist.Proofs.Text.Segments
import Mathlib.Data.List.Basic

/-! What a file's folder and its name have to do with its module. The name counts by its stem alone, once it has
the extension of a script or a template; all directories are looked for in the folder. -/
namespace EmberAssist.Layout

open FilePath Text

variable {root podPrefix path folder front base : List Char}

/-- A path below the root of a project leads to a folder, and in it to a file. -/
structure IsFile (root path folder base : List Char) : Prop where
  place : relativeTo (trimRoot root) path = folder ++ '/' :: base
  single : '/' ∉ base

theorem slash_mem_relativeTo (root path : List Char) : '/' ∈ relativeTo root path := by
  have led (path : List Char) : '/' ∈ withLeadingSlash path := by
    unfold withLeadingSlash
    split
    · rename_i slash
      exact (startsWith_iff.mp slash).subset List.mem_cons_self
    · exact List.mem_cons_self
  unfold relativeTo
  simp only
  split <;> exact led _

theorem exists_isFile (root path : List Char) : ∃ folder base, IsFile root path folder base := by
  obtain absent | ⟨folder, base, place, single⟩ := cut_at_last '/' (relativeTo (trimRoot root) path)
  · exact absurd (slash_mem_relativeTo _ _) absent
  · exact ⟨folder, base, place, single⟩

theorem exists_withLeadingSlash (front : List Char) :
    ∃ folder, ∀ base, withLeadingSlash (front ++ '/' :: base) = folder ++ '/' :: base := by
  cases front with
  | nil => exact ⟨[], fun base => rfl⟩
  | cons c front =>
    by_cases slash : c = '/'
    · exact ⟨c :: front, fun base => by simp [withLeadingSlash, startsWith, slash]⟩
    · exact ⟨'/' :: c :: front, fun base => by simp [withLeadingSlash, startsWith, Ne.symm slash]⟩

/-- A directory, written with slashes, leads to a folder below the root. -/
def LeadsTo (root front folder : List Char) : Prop :=
  ∀ {path base : List Char}, withSlashes path = front ++ '/' :: base → '/' ∉ base → IsFile root path folder base

/-- Files that are beside each other are in one folder below the root. -/
theorem exists_leadsTo (root front : List Char) : ∃ folder, LeadsTo root front folder := by
  have shared {path base : List Char} (written : withSlashes path = front ++ '/' :: base)
      (single : '/' ∉ base) : startsWith (withSlashes path) (trimRoot root ++ ['/']) =
        startsWith (front ++ ['/']) (trimRoot root ++ ['/']) := by
    rw [written, List.append_cons, startsWith_append single]
  by_cases inside : (!(trimRoot root).isEmpty && startsWith (front ++ ['/']) (trimRoot root ++ ['/'])) = true
  · obtain ⟨folder, led⟩ := exists_withLeadingSlash (front.drop (trimRoot root).length)
    refine ⟨folder, fun written single => ⟨?_, single⟩⟩
    have short : (trimRoot root).length ≤ front.length := by
      have within := (startsWith_iff.mp (Bool.and_eq_true_iff.mp inside).2).length_le
      simpa using within
    rw [relativeTo, shared written single, if_pos inside, written, List.drop_append_of_le_length short, led]
  · obtain ⟨folder, led⟩ := exists_withLeadingSlash front
    refine ⟨folder, fun written single => ⟨?_, single⟩⟩
    rw [relativeTo, shared written single, if_neg inside, written, led]

/-! ## The classic layout -/

/-- The first directory of the classic layout among the folders above a file, and the folders between them. -/
def placeOfSegments? : List (List Char) → Option (List (List Char) × ModuleKind)
  | [] => none
  | segment :: rest =>
    let found := classicDirectories.findSome? fun (directory, kind) =>
      if startsWith (segment :: rest) (directory.map String.toList) then
        some ((segment :: rest).drop directory.length, kind)
      else none
    found.or (placeOfSegments? rest)

theorem behindDirectory?_append (directory : List String) (segments : List (List Char)) (last : List Char) :
    behindDirectory? directory (segments ++ [last]) =
      if startsWith segments (directory.map String.toList) then
        some (segments.drop directory.length ++ [last])
      else none := by
  have above : directory.map String.toList <+: segments ++ [last] ∧
      directory.length < (segments ++ [last]).length ↔ directory.map String.toList <+: segments := by
    rw [List.prefix_concat_iff]
    constructor
    · rintro ⟨whole | inside, short⟩
      · have long := congrArg List.length whole
        rw [List.length_map] at long
        omega
      · exact inside
    · intro inside
      have within := inside.length_le
      rw [List.length_map] at within
      exact ⟨.inr inside, by rw [List.length_append, List.length_singleton]; omega⟩
  unfold behindDirectory? startsWith
  simp only [Bool.and_eq_true, List.isPrefixOf_iff_prefix, decide_eq_true_eq, above]
  split
  · rename_i inside
    have within := inside.length_le
    rw [List.length_map] at within
    rw [List.drop_append_of_le_length within]
  · rfl

/-- A module is named by the folders behind the directory and by its stem. -/
theorem moduleOfSegments?_append (segments : List (List Char)) (last : List Char) :
    moduleOfSegments? (segments ++ [last]) = (placeOfSegments? segments).map fun (between, kind) =>
      ⟨(splitExtension (join ['/'] (between ++ [last]))).1, kind⟩ := by
  induction segments with
  | nil => simp [moduleOfSegments?, placeOfSegments?, classicDirectories, behindDirectory?]
  | cons segment rest ih =>
    have here (directory : List String) :=
      behindDirectory?_append directory (segment :: rest) last
    simp only [List.cons_append] at here
    rw [List.cons_append, moduleOfSegments?, placeOfSegments?, ih, Option.map_or, List.map_findSome?]
    simp only [here, Function.comp_def]
    congr 2
    funext directory
    split <;> rfl

theorem splitExtension_join (single : '/' ∉ base) (between : List (List Char)) :
    (splitExtension (join ['/'] (between ++ [base]))).1 =
      join ['/'] (between ++ [(splitExtension base).1]) := by
  by_cases empty : between = []
  · rw [empty]
    rfl
  · rw [join_append_singleton empty, join_append_singleton empty, splitExtension_behind_slash single]

/-- The folders that a path leads through. -/
def foldersIn (path : List Char) : List (List Char) := (splitOn '/' path).dropLast

theorem splitOn_append_base (closed : path = [] ∨ ∃ front, path = front ++ ['/']) (single : '/' ∉ base) :
    splitOn '/' (path ++ base) = foldersIn path ++ [base] := by
  rcases closed with rfl | ⟨front, rfl⟩
  · exact splitOn_of_notMem single
  · rw [foldersIn, List.append_assoc, List.singleton_append, splitOn_append, splitOn_append,
      splitOn_of_notMem single]
    simp [splitOn]

/-! ## Directories above a file -/

theorem exists_word {marker : List Char} (member : marker ∈ ignoredSegments ++ sourceRoots) :
    ∃ word, marker = word ++ ['/'] := by
  have closed : ∀ marker ∈ ignoredSegments ++ sourceRoots, marker = marker.dropLast ++ ['/'] := by decide
  exact ⟨marker.dropLast, closed marker member⟩

theorem isIgnored_append (single : '/' ∉ base) (front : List Char) :
    isIgnored (front ++ base) = isIgnored front := by
  have same (segment : List Char) (member : segment ∈ ignoredSegments) :
      occursIn segment (front ++ base) = occursIn segment front := by
    obtain ⟨word, rfl⟩ := exists_word (List.mem_append_left _ member)
    exact occursIn_append_free single
  unfold isIgnored
  rw [Bool.eq_iff_iff, List.any_eq_true, List.any_eq_true]
  exact exists_congr fun segment => and_congr_right fun member => by rw [same segment member]

theorem belowSourceRoot?_append (single : '/' ∉ base) (front : List Char) :
    belowSourceRoot? (front ++ base) = (belowSourceRoot? front).map (· ++ base) := by
  have each (marker : List Char) (member : marker ∈ sourceRoots) :
      (find? marker (front ++ base)).map (fun index => (index, (front ++ base).drop (index + marker.length))) =
        ((find? marker front).map fun index => (index, front.drop (index + marker.length))).map
          (Prod.map id (· ++ base)) := by
    obtain ⟨word, rfl⟩ := exists_word (List.mem_append_right _ member)
    rw [find?_append_free single]
    cases found : find? (word ++ ['/']) front with
    | none => rfl
    | some index =>
      have inside := le_of_find? (by simp) found
      simp only [Option.map_some, List.drop_append_of_le_length inside]
      rfl
  unfold belowSourceRoot?
  simp only
  rw [List.filterMap_congr each, ← List.map_filterMap]
  rcases sourceRoots.filterMap _ with _ | ⟨⟨index, rest⟩, _ | ⟨⟨index', rest'⟩, _⟩⟩
  · rfl
  · rfl
  · simp only [List.map_cons, Prod.map_apply, id_eq, Option.map_some, apply_ite (· ++ base)]

theorem suffix_of_belowSourceRoot? {rest : List Char} (found : belowSourceRoot? path = some rest) :
    rest <:+ path := by
  have each (place : Nat × List Char) (member : place ∈ sourceRoots.filterMap fun marker =>
      (find? marker path).map fun index => (index, path.drop (index + marker.length))) : place.2 <:+ path := by
    obtain ⟨marker, -, cut⟩ := List.mem_filterMap.mp member
    obtain ⟨index, -, rfl⟩ := Option.map_eq_some_iff.mp cut
    exact List.drop_suffix _ path
  unfold belowSourceRoot? at found
  simp only at found
  generalize sourceRoots.filterMap _ = places at each found
  rcases places with _ | ⟨⟨index, first⟩, _ | ⟨⟨index', second⟩, _⟩⟩
  · cases found
  · obtain rfl := Option.some.inj found
    exact each _ List.mem_cons_self
  · obtain rfl := Option.some.inj found
    split
    · exact each _ List.mem_cons_self
    · exact each _ (List.mem_cons_of_mem _ List.mem_cons_self)

/-! ## The module of a file -/

/-- The part of a path that can name its pod: what stands behind the prefix of pods, or else behind the
directory that sources are in. -/
def podPart? (podPrefix path : List Char) : Option (List Char) :=
  (podName? podPrefix (directoryOf path ++ ['/'])).map (trimEnd (· == '/'))

/-- The module in a pod with a role. -/
def moduleOfPod? (kind : ModuleKind) (part : List Char) : Option AppModule :=
  let (name, kind) :=
    if startsWith part componentsDirectory then
      (part.drop componentsDirectory.length, if kind = .template then .component else kind)
    else (part, kind)
  if name.isEmpty then none else some ⟨name, kind⟩

/-- The module that the files in a folder with a stem belong to, before it is named after features, and whether
it is in the pod layout. -/
def moduleIn? (podPrefix folder stem : List Char) : Option (AppModule × Bool) :=
  if isIgnored (folder ++ ['/']) then none
  else
    match roleKind? stem with
    | none =>
      ((belowSourceRoot? (folder ++ ['/'])).bind fun rest => placeOfSegments? (foldersIn rest)).map
        fun (between, kind) => (⟨join ['/'] (between ++ [stem]), kind⟩, false)
    | some kind => ((podPart? podPrefix (folder ++ ['/'])).bind (moduleOfPod? kind)).map (·, true)

theorem classicModule?_of_isFile (file : IsFile root path folder base) :
    classicModule? root path =
      if isIgnored (folder ++ ['/']) || !moduleExtensions.contains (splitExtension base).2 ||
        (roleKind? (splitExtension base).1).isSome then none
      else
        ((belowSourceRoot? (folder ++ ['/'])).bind fun rest => placeOfSegments? (foldersIn rest)).map
          fun (between, kind) => ⟨join ['/'] (between ++ [(splitExtension base).1]), kind⟩ := by
  obtain ⟨place, single⟩ := file
  unfold classicModule?
  simp only [place, splitLast_append single]
  rw [List.append_cons folder, isIgnored_append single, belowSourceRoot?_append single]
  congr 1
  cases below : belowSourceRoot? (folder ++ ['/']) with
  | none => rfl
  | some rest =>
    have closed : rest = [] ∨ ∃ front, rest = front ++ ['/'] := by
      rcases List.suffix_concat_iff.mp (suffix_of_belowSourceRoot? below) with empty | ⟨front, rfl, -⟩
      · exact .inl empty
      · exact .inr ⟨front, rfl⟩
    simp only [Option.map_some, Option.bind_some]
    rw [splitOn_append_base closed single, moduleOfSegments?_append]
    simp only [splitExtension_join single]

theorem podModule?_of_isFile (file : IsFile root path folder base) :
    podModule? root podPrefix path = (roleKind? (splitExtension base).1).bind fun kind =>
      if isIgnored (folder ++ ['/']) || !moduleExtensions.contains (splitExtension base).2 then none
      else (podPart? podPrefix (folder ++ ['/'])).bind (moduleOfPod? kind) := by
  obtain ⟨place, single⟩ := file
  have directory : directoryOf (folder ++ '/' :: base) = directoryOf (folder ++ ['/']) := by
    unfold directoryOf
    rw [splitLast_append single, splitLast_append List.not_mem_nil]
  unfold podModule? podPart?
  simp only [place, splitLast_append single, directory]
  rw [List.append_cons folder, isIgnored_append single]
  cases roleKind? (splitExtension base).1 with
  | none => rfl
  | some kind =>
    simp only [Option.bind_eq_bind, Option.bind_some]
    congr 1
    cases podName? podPrefix (directoryOf (folder ++ ['/']) ++ ['/']) with
    | none => rfl
    | some rest => rfl

/-- The folder and the stem tell the module of a file with the extension of a script or a template. -/
theorem plainModule?_of_isFile (file : IsFile root path folder base) (podPrefix : List Char) :
    plainModule? root podPrefix path =
      if (splitExtension base).2 ∈ moduleExtensions then moduleIn? podPrefix folder (splitExtension base).1
      else none := by
  unfold plainModule? moduleIn?
  rw [classicModule?_of_isFile file, podModule?_of_isFile file]
  by_cases member : (splitExtension base).2 ∈ moduleExtensions
  · have listed : moduleExtensions.contains (splitExtension base).2 = true := List.contains_iff_mem.mpr member
    cases isIgnored (folder ++ ['/']) with
    | true => simp
    | false =>
      cases roleKind? (splitExtension base).1 with
      | none =>
        simp only [listed, member, Bool.not_true, Bool.or_false, Bool.false_eq_true, if_false, if_true,
          Option.isSome_none, Option.bind_none, Option.map_none]
        cases (belowSourceRoot? (folder ++ ['/'])).bind fun rest => placeOfSegments? (foldersIn rest) with
        | none => rfl
        | some place => rfl
      | some kind => simp [member]
  · simp [member]

/-! ## Names after features -/

theorem featureName_append (single : '/' ∉ base) (pod : Bool) (front : List Char) :
    featureName pod (front ++ base) = featureName pod front := by
  have replaced (back : List Char) (free : '/' ∉ back) :
      "feature".toList ++ replace "/components/".toList ['/'] (front ++ back) =
        ("feature".toList ++ replace "/components/".toList ['/'] front) ++ back := by
    have ended : "/components/".toList = "/components".toList ++ ['/'] := rfl
    rw [ended, replace_append_free free, List.append_assoc]
  obtain ⟨pieces, last, cut⟩ :=
    exists_splitOn '/' ("feature".toList ++ replace "/components/".toList ['/'] front)
  have whole := cut [] List.not_mem_nil
  rw [List.append_nil] at whole
  unfold featureName
  simp only
  rw [replaced base single, cut base single, whole, List.length_append, List.length_append,
    List.length_singleton, List.length_singleton]
  have before : pieces.length + 1 - (if pod = true then 2 else 1) ≤ pieces.length := by split <;> omega
  rw [List.take_append_of_le_length before, List.take_append_of_le_length before]

/-- A module is renamed after the directories that its folder is in. -/
theorem renamed_of_folder (written : withSlashes path = front ++ '/' :: base) (single : '/' ∉ base)
    (found : AppModule) (pod : Bool) : renamed found path pod = renamed found (front ++ ['/']) pod := by
  have folder : withSlashes (front ++ ['/']) = front ++ ['/'] := by
    apply withSlashes_of_notMem
    intro member
    apply notMem_withSlashes path
    rw [written]
    exact List.mem_append_left _ (by simpa using member)
  have free : '/' ∉ lower base := notMem_lowerAfter single []
  have cut : lower (front ++ '/' :: base) = lower (front ++ ['/']) ++ lower base := by
    rw [lower_append, lower_append, List.append_assoc]
    rfl
  have features : find? (featuresMarker ++ ['/']) (lower (front ++ ['/']) ++ lower base) =
      find? (featuresMarker ++ ['/']) (lower (front ++ ['/'])) := find?_append_free free
  have shared : occursIn ("/app/shared".toList ++ ['/']) (lower (front ++ ['/']) ++ lower base) =
      occursIn ("/app/shared".toList ++ ['/']) (lower (front ++ ['/'])) := occursIn_append_free free
  have marker : sharedMarker = "/app/shared".toList ++ ['/'] := rfl
  unfold renamed
  simp only [written, folder, cut, features, marker, shared]
  cases find? (featuresMarker ++ ['/']) (lower (front ++ ['/'])) with
  | none => rfl
  | some index =>
    have last : '/' ∉ base.drop (index + featuresMarker.length - (front ++ ['/']).length) :=
      fun member => single (List.mem_of_mem_drop member)
    have behind : (front ++ '/' :: base).drop (index + featuresMarker.length) =
        (front ++ ['/']).drop (index + featuresMarker.length) ++
          base.drop (index + featuresMarker.length - (front ++ ['/']).length) := by
      rw [← List.drop_append, ← List.append_cons]
    simp only [behind, featureName_append last]

/-! ## Files beside each other -/

/-- Which of the extensions a file has does not matter. -/
theorem classify_of_leadsTo {layout : ProjectLayout} {directory stem : String} {last extension : List Char}
    (leads : LeadsTo layout.root.toList front folder)
    (written : withSlashes (directory.toList ++ '/' :: stem.toList) = front ++ '/' :: last)
    (single : '/' ∉ last) (member : extension ∈ moduleExtensions) :
    layout.classify (directory ++ "/" ++ stem ++ String.ofList extension) =
      if last.all (· == '.') then none
      else (moduleIn? layout.podPrefix.toList folder last).map fun (found, pod) =>
        renamed found (front ++ ['/']) pod := by
  obtain ⟨letters, rfl, -, plain, within, straight⟩ := exists_letters member
  have path : (directory ++ "/" ++ stem ++ String.ofList ('.' :: letters)).toList =
      (directory.toList ++ '/' :: stem.toList) ++ '.' :: letters := by simp
  have whole : '/' ∉ last ++ '.' :: letters := by simp [single, within]
  have ended : withSlashes ((directory.toList ++ '/' :: stem.toList) ++ '.' :: letters) =
      front ++ '/' :: (last ++ '.' :: letters) := by
    rw [withSlashes_append, written, withSlashes_of_notMem straight, if_neg (by decide), List.append_assoc,
      List.cons_append]
  rw [classify_eq, path, plainModule?_of_isFile (leads ended whole), splitExtension_append single plain within]
  simp only [renamed_of_folder ended whole]
  by_cases dots : last.all (· == '.') = true
  · rw [if_pos dots, if_pos dots]
    rfl
  · rw [if_neg dots, if_neg dots, if_pos member]

/-- In the directory of components a template is part of its component. -/
theorem moduleIn?_component {name : List Char}
    (part : podPart? podPrefix (folder ++ ['/']) = some (componentsDirectory ++ name)) :
    moduleIn? podPrefix folder "component".toList = moduleIn? podPrefix folder "template".toList := by
  have component : roleKind? "component".toList = some .component := by decide +kernel
  have template : roleKind? "template".toList = some .template := by decide +kernel
  have below : startsWith (componentsDirectory ++ name) componentsDirectory = true :=
    startsWith_iff.mpr (List.prefix_append _ _)
  have same : moduleOfPod? .component (componentsDirectory ++ name) =
      moduleOfPod? .template (componentsDirectory ++ name) := by
    simp only [moduleOfPod?, below, if_true]
    rfl
  unfold moduleIn?
  simp only [component, template, part, Option.bind_some, same]

/-- The files of one module are classified as the same, whether they differ in their extensions or are the
script and the template of a component in a pod. -/
theorem classify_beside (classifier : PathClassifier) (directory : String) {one other : List Char}
    (isOne : one ∈ moduleExtensions) (isOther : other ∈ moduleExtensions) :
    let root := classifier.layout.root.toList
    let podPrefix := classifier.layout.podPrefix.toList
    let found (stem : String) (extension : List Char) :=
      classifier.classify (directory ++ "/" ++ stem ++ String.ofList extension)
    (∀ stem, found stem one = found stem other) ∧
      ∀ name, podPart? podPrefix (relativeTo (trimRoot root) (directory ++ "/").toList) =
          some (componentsDirectory ++ name) →
        found "component" one = found "template" other := by
  intro root podPrefix found
  constructor
  · intro stem
    have slashed : '/' ∈ withSlashes (directory.toList ++ '/' :: stem.toList) := by
      rw [withSlashes_append_slash]
      simp
    obtain absent | ⟨front, last, written, single⟩ :=
      cut_at_last '/' (withSlashes (directory.toList ++ '/' :: stem.toList))
    · exact absurd slashed absent
    · obtain ⟨folder, leads⟩ := exists_leadsTo root front
      have first := classify_of_leadsTo leads written single isOne
      have second := classify_of_leadsTo leads written single isOther
      exact first.trans second.symm
  · intro name part
    obtain ⟨folder, leads⟩ := exists_leadsTo root (withSlashes directory.toList)
    have inside (stem : String) (plain : '\\' ∉ stem.toList) :
        withSlashes (directory.toList ++ '/' :: stem.toList) =
          withSlashes directory.toList ++ '/' :: stem.toList := by
      rw [withSlashes_append_slash, withSlashes_of_notMem plain]
    have place := (leads (inside "" List.not_mem_nil) List.not_mem_nil).place
    have written : (directory ++ "/").toList = directory.toList ++ '/' :: "".toList := by simp
    rw [written, place] at part
    have component := classify_of_leadsTo leads (inside "component" (by decide)) (by decide) isOne
    have template := classify_of_leadsTo leads (inside "template" (by decide)) (by decide) isOther
    rw [moduleIn?_component part] at component
    exact component.trans template.symm

theorem classify_beside_card :
    let classifier : PathClassifier := ⟨⟨"/p", "app/pods"⟩⟩
    let directory := "/p/app/pods/components/user-card"
    podPart? "app/pods".toList (relativeTo (trimRoot "/p".toList) (directory ++ "/").toList) =
        some (componentsDirectory ++ "user-card".toList) ∧
      classifier.classify (directory ++ "/component.js") = some ⟨"user-card".toList, .component⟩ ∧
      classifier.classify (directory ++ "/component.js") =
        classifier.classify (directory ++ "/template.hbs") := by
  intro classifier directory
  have part : podPart? "app/pods".toList (relativeTo (trimRoot "/p".toList) (directory ++ "/").toList) =
      some (componentsDirectory ++ "user-card".toList) := by decide +kernel
  have script : ".js".toList ∈ moduleExtensions := by decide
  have template : ".hbs".toList ∈ moduleExtensions := by decide
  exact ⟨part, by decide +kernel,
    (classify_beside classifier directory script template).2 "user-card".toList part⟩

end EmberAssist.Layout
