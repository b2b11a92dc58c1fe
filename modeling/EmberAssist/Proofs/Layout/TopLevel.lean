import EmberAssist.Proofs.Layout.Folders

/-! A project at the root directory itself. Its root ends with the slash that paths below it begin with, and where
both are written there are two slashes in front. All directories are looked for with one slash before a letter, so
that the other slash makes no difference. -/
namespace EmberAssist.Layout

open FilePath Text

variable {root text marker : List Char}

/-- A directory that is looked for, with the slash in front of its name. -/
def IsStep (marker : List Char) : Prop := ∃ c rest, marker = '/' :: c :: rest ∧ c ≠ '/'

/-- Another slash in front is passed over. -/
theorem IsStep.find?_slash (step : IsStep marker) (text : List Char) :
    find? marker ('/' :: '/' :: text) = (find? marker ('/' :: text)).map (· + 1) := by
  obtain ⟨c, rest, rfl, other⟩ := step
  have apart : ¬ BeginsIn ('/' :: c :: rest) ['/'] ('/' :: text) := by simp [BeginsIn, other]
  exact find?_append apart

theorem IsStep.occursIn_slash (step : IsStep marker) (text : List Char) :
    occursIn marker ('/' :: '/' :: text) = occursIn marker ('/' :: text) := by
  rw [occursIn, occursIn, step.find?_slash, Option.isSome_map]

theorem isStep_of_mem (member : marker ∈ ignoredSegments ++ sourceRoots ++ [featuresMarker ++ ['/'], sharedMarker]) :
    IsStep marker := by
  have steps : ∀ marker ∈ ignoredSegments ++ sourceRoots ++ [featuresMarker ++ ['/'], sharedMarker],
      marker = '/' :: marker.tail.headD '/' :: marker.tail.tail ∧ marker.tail.headD '/' ≠ '/' := by decide
  exact ⟨_, _, steps marker member⟩

/-! ## Folders -/

theorem isIgnored_slash (text : List Char) : isIgnored ('/' :: '/' :: text) = isIgnored ('/' :: text) := by
  unfold isIgnored
  rw [Bool.eq_iff_iff, List.any_eq_true, List.any_eq_true]
  refine exists_congr fun segment => and_congr_right fun member => ?_
  rw [(isStep_of_mem (by simp [member])).occursIn_slash]

theorem belowSourceRoot?_slash (text : List Char) :
    belowSourceRoot? ('/' :: '/' :: text) = belowSourceRoot? ('/' :: text) := by
  have each (marker : List Char) (member : marker ∈ sourceRoots) :
      (find? marker ('/' :: '/' :: text)).map
          (fun index => (index, ('/' :: '/' :: text).drop (index + marker.length))) =
        ((find? marker ('/' :: text)).map fun index => (index, ('/' :: text).drop (index + marker.length))).map
          (Prod.map (· + 1) id) := by
    rw [(isStep_of_mem (by simp [member])).find?_slash]
    cases find? marker ('/' :: text) with
    | none => rfl
    | some index => simp [Nat.add_right_comm index 1]
  unfold belowSourceRoot?
  simp only
  rw [List.filterMap_congr each, ← List.map_filterMap]
  rcases sourceRoots.filterMap _ with _ | ⟨⟨index, rest⟩, _ | ⟨⟨index', rest'⟩, _⟩⟩
  · rfl
  · rfl
  · simp

theorem directoryOf_append_slash (folder : List Char) : directoryOf (folder ++ ['/']) =
    if (folder ++ ['/']).all (· == '/') then folder ++ ['/'] else trimEnd (· == '/') (folder ++ ['/']) := by
  unfold directoryOf
  rw [splitLast_append List.not_mem_nil]

/-- A folder with a slash in front is a directory with a slash in front, and with another one it is the same but for
this slash. -/
theorem exists_directoryOf {folder : List Char} (begun : folder ++ ['/'] = '/' :: text) : ∃ rest,
    directoryOf (folder ++ ['/']) = '/' :: rest ∧ directoryOf ('/' :: folder ++ ['/']) = '/' :: '/' :: rest := by
  rw [directoryOf_append_slash, directoryOf_append_slash, List.cons_append, begun]
  have more : ('/' :: '/' :: text).all (· == '/') = ('/' :: text).all (· == '/') := by simp
  rw [more]
  by_cases slashes : ('/' :: text).all (· == '/') = true
  · exact ⟨text, by rw [if_pos slashes], by rw [if_pos slashes]⟩
  · have kept : ¬ trimEnd (· == '/') ('/' :: text) = [] := mt trimEnd_eq_nil_iff.mp slashes
    have kept' : ¬ trimEnd (· == '/') text = [] := fun none => slashes (by simpa using trimEnd_eq_nil_iff.mp none)
    refine ⟨trimEnd (· == '/') text, ?_, ?_⟩
    · rw [if_neg slashes, trimEnd_cons, if_neg (not_and_of_not_left _ kept')]
    · rw [if_neg slashes, trimEnd_cons, if_neg (not_and_of_not_left _ kept), trimEnd_cons,
        if_neg (not_and_of_not_left _ kept')]

/-- A prefix of pods that begins with a letter is looked for like any directory. -/
theorem isStep_podPrefix {c : Char} {rest : List Char} (other : c ≠ '/') :
    IsStep ('/' :: trim (· == '/') (c :: rest) ++ ['/']) := by
  have kept : (c == '/') = false := beq_false_of_ne other
  have trimmed : trim (· == '/') (c :: rest) = c :: trimEnd (· == '/') rest := by
    rw [trim, List.dropWhile_cons_of_neg (by simpa using other), trimEnd_cons, if_neg (by simp [kept])]
  exact ⟨c, trimEnd (· == '/') rest ++ ['/'], by rw [trimmed]; rfl, other⟩

theorem podName?_slash {c : Char} {rest : List Char} (other : c ≠ '/') (text : List Char) :
    podName? (c :: rest) ('/' :: '/' :: text) = podName? (c :: rest) ('/' :: text) := by
  unfold podName?
  simp only
  rw [(isStep_podPrefix other).find?_slash]
  cases find? ('/' :: trim (· == '/') (c :: rest) ++ ['/']) ('/' :: text) with
  | none => exact belowSourceRoot?_slash text
  | some index => simp [Nat.add_right_comm index 1]

theorem moduleIn?_slash {c : Char} {rest folder : List Char} (other : c ≠ '/')
    (begun : folder ++ ['/'] = '/' :: text) (stem : List Char) :
    moduleIn? (c :: rest) ('/' :: folder) stem = moduleIn? (c :: rest) folder stem := by
  obtain ⟨behind, directory, directory'⟩ := exists_directoryOf begun
  unfold moduleIn? podPart?
  rw [directory, directory', List.cons_append, begun, isIgnored_slash, belowSourceRoot?_slash, List.cons_append,
    List.cons_append, podName?_slash other]

/-! ## Paths -/

theorem withSlashes_slash (text : List Char) : withSlashes ('/' :: text) = '/' :: withSlashes text :=
  withSlashes_append_slash [] text

theorem relativeTo_top (path : List Char) : relativeTo [] path = withLeadingSlash (withSlashes path) := rfl

theorem withLeadingSlash_slash (text : List Char) : withLeadingSlash ('/' :: text) = '/' :: text := by
  simp [withLeadingSlash, startsWith]

/-- A path with another slash in front is the same module before it is named after features. -/
theorem plainModule?_slash {c : Char} {rest : List Char} (top : trimRoot root = []) (other : c ≠ '/')
    (text : List Char) : plainModule? root (c :: rest) ('/' :: '/' :: text) =
      plainModule? root (c :: rest) ('/' :: text) := by
  obtain ⟨folder, base, place, single⟩ := exists_isFile root ('/' :: text)
  have file : IsFile root ('/' :: text) folder base := ⟨place, single⟩
  rw [top, relativeTo_top, withSlashes_slash, withLeadingSlash_slash] at place
  have file' : IsFile root ('/' :: '/' :: text) ('/' :: folder) base := by
    refine ⟨?_, single⟩
    rw [top, relativeTo_top, withSlashes_slash, withSlashes_slash, withLeadingSlash_slash, place, List.cons_append]
  have begun : ∃ text, folder ++ ['/'] = '/' :: text := by
    cases folder with
    | nil => exact ⟨[], rfl⟩
    | cons d folder =>
      obtain ⟨rfl, -⟩ := List.cons.inj place
      exact ⟨folder ++ ['/'], rfl⟩
  obtain ⟨between, begun⟩ := begun
  rw [plainModule?_of_isFile file, plainModule?_of_isFile file', moduleIn?_slash other begun]

/-- Another slash in front of a path does not change how a module is named. -/
theorem renamed_slash (found : AppModule) (text : List Char) (pod : Bool) :
    renamed found ('/' :: '/' :: text) pod = renamed found ('/' :: text) pod := by
  have lowered (text : List Char) : lower ('/' :: text) = '/' :: lower text := lower_append [] text
  have features : IsStep (featuresMarker ++ ['/']) := isStep_of_mem (by simp)
  have shared : IsStep sharedMarker := isStep_of_mem (by simp)
  unfold renamed
  simp only [withSlashes_slash, lowered, features.find?_slash, shared.occursIn_slash]
  cases find? (featuresMarker ++ ['/']) ('/' :: lower (withSlashes text)) with
  | none => rfl
  | some index =>
    simp only [Option.map_some, Nat.add_right_comm index 1, List.drop_succ_cons]

/-- In a project at the root directory, another slash in front of a path makes no difference to its module. -/
theorem classify_slash {layout : ProjectLayout} {c : Char} {rest : List Char} (top : trimRoot layout.root.toList = [])
    (pods : layout.podPrefix.toList = c :: rest) (other : c ≠ '/') {path : String}
    (slashed : path.toList.head? = some '/') : layout.classify ("/" ++ path) = layout.classify path := by
  obtain ⟨text, spelled⟩ : ∃ text, path.toList = '/' :: text := by
    cases spelled : path.toList with
    | nil => simp [spelled] at slashed
    | cons d text => exact ⟨text, by simpa [spelled] using slashed⟩
  have doubled : ("/" ++ path).toList = '/' :: '/' :: text := by simp [spelled]
  rw [classify_eq, classify_eq, doubled, spelled, pods, plainModule?_slash top other]
  simp only [renamed_slash]

end EmberAssist.Layout
