import Mathlib.Data.List.Basic
import EmberAssist.Proofs.Phrase.Keys
import EmberAssist.Proofs.Project.Reading
import EmberAssist.Proofs.PathName
import EmberAssist.Readers.Usual

/-! Files that hold no phrases among those that do. A file that cannot be read, is malformed or holds no mapping
is passed over, and the catalogue is that of the other files. A file that stops its reader for another reason is
not: its fault is all that is told of the phrases of the project. -/
namespace EmberAssist

/-- A source without some of its files. -/
def FileSource.without (source : FileSource) (gone : FilePath → Bool) : FileSource where
  list directory := (source.list directory).filter fun file => !gone (directory.join (.ofString file))
  read path := if gone path then none else source.read path

namespace Phrase

open Data (Scalar Value ValueFault)
open FileReader

/-! ## One file -/

section
variable (reader : Reader)

/-- The mapping that a file holds, if it can be read and holds one in the format that its suffix tells. -/
def mappingAt? (source : FileSource) (path : FilePath) : Option (List (Scalar × Value)) :=
  match (source.read path).map (reader.decode path.lowerSuffix) with
  | some (.ok (.map entries)) => some entries
  | _ => none

/-- What keeps the phrases of a mapping from being told: how deep it is, or something in it. -/
def hindrances (entries : List (Scalar × Value)) : List ValueFault :=
  (reader.tooDeep? entries).toList ++ obstacles entries

/-- The faults of a file that are not passed over: what stops the reader of the file, if that is not its form,
or what keeps the phrases of the mapping from being told. -/
def faultsAt (source : FileSource) (path : FilePath) : List ValueFault :=
  match (source.read path).map (reader.decode path.lowerSuffix) with
  | some (.error (.value fault)) => [fault]
  | some (.ok (.map entries)) => hindrances reader entries
  | _ => []

/-- The phrases in a file, those of its mapping, as the texts of the locale that its name tells. -/
def phrasesAt (source : FileSource) (path : FilePath) : List (String × Entry) :=
  match mappingAt? reader source path with
  | some entries => (leaves entries).map fun (way, leaf) =>
    (String.ofList (spelled way), ⟨String.ofList path.stem, String.ofList leaf.shown⟩)
  | none => []

/-- Whether the suffix of a file is one of those of phrases. -/
def isPhraseFile (file : String) : Bool := phraseSuffixes.contains (FilePath.ofString file).lowerSuffix

/-- The faults of a file below a directory. Only a file with a suffix of phrases has any. -/
def faultsIn (source : FileSource) (base : FilePath) (file : String) : List ValueFault :=
  if isPhraseFile file then faultsAt reader source (base.join (.ofString file)) else []

/-- The phrases in a file below a directory. Only a file with a suffix of phrases has any. -/
def phrasesIn (source : FileSource) (base : FilePath) (file : String) : List (String × Entry) :=
  if isPhraseFile file then phrasesAt reader source (base.join (.ofString file)) else []

end

section
variable {reader : Reader} {source : FileSource} {base : FilePath} {file : String}

theorem Reader.flatten_eq (entries : List (Scalar × Value)) : reader.flatten entries =
    unlessAny (hindrances reader entries)
      ((leaves entries).map fun (way, leaf) => (spelled way, leaf.shown)) := by
  unfold Reader.flatten hindrances
  cases reader.tooDeep? entries with
  | some fault => rfl
  | none => exact flatten_nil entries

theorem ofSource_eq (locale suffix text : String) : ofSource reader locale suffix text =
    match reader.decode suffix text with
    | .error (.value fault) => .error fault
    | .ok (.map entries) => unlessAny (hindrances reader entries) ((leaves entries).map fun (way, leaf) =>
      (String.ofList (spelled way), ⟨locale, String.ofList leaf.shown⟩))
    | _ => .ok [] := by
  unfold ofSource Reader.entriesOf?
  cases reader.decode suffix text with
  | error fault => cases fault <;> rfl
  | ok value =>
    cases value with
    | map entries =>
      change (do
        let phrases ← reader.flatten entries
        return phrases.map fun (key, text) => (String.ofList key, (⟨locale, String.ofList text⟩ : Entry))) = _
      rw [Reader.flatten_eq, unlessAny_map, List.map_map]
      rfl
    | _ => rfl

/-- All that matters for the phrases below a directory is among everything. -/
theorem phrasesMatter_everything (base : FilePath) : PhrasesMatter .everything base :=
  fun _ _ => ⟨rfl, rfl⟩

theorem run_readFile (phrases : isPhraseFile file = true) :
    (readFile reader base file).run.told source =
      match source.read (base.join (.ofString file)) with
      | some text => ofSource reader (String.ofList (FilePath.ofString file).stem)
        (FilePath.ofString file).lowerSuffix text
      | none => .ok [] := by
  have matters : Interest.everything.text (base.join (.ofString file)) = true := rfl
  rw [isPhraseFile] at phrases
  simp only [readFile]
  rw [if_pos phrases]
  -- What is told of a text does not matter here, and must not be looked into.
  generalize ofSource _ _ _ = tell
  refine (told_run_bind (steady_run_lift (steady_readText matters)) ?_ source).trans ?_
  · exact fun
      | some _ => steady_run_ofExcept _
      | none => steady_run_pure _
  · change (Except.ok (source.read (base.join (.ofString file))) >>= _) = _
    cases source.read (base.join (.ofString file)) <;> rfl

/-- A file that is read for phrases has a name, which is that of its path. -/
theorem name_of_phraseFile (phrases : isPhraseFile file = true) :
    (base.join (.ofString file)).name = (FilePath.ofString file).name := by
  refine FilePath.name_join fun empty => ?_
  rw [isPhraseFile, FilePath.lowerSuffix_of_parts empty] at phrases
  exact absurd phrases (by decide)

theorem told_readFile : (readFile reader base file).run.told source =
    unlessAny (faultsIn reader source base file) (phrasesIn reader source base file) := by
  by_cases phrases : isPhraseFile file = true
  · have name : (base.join (.ofString file)).name = (FilePath.ofString file).name :=
      name_of_phraseFile phrases
    have suffix : (base.join (.ofString file)).lowerSuffix = (FilePath.ofString file).lowerSuffix := by
      rw [FilePath.lowerSuffix, FilePath.suffix, name]
      rfl
    have stem : (base.join (.ofString file)).stem = (FilePath.ofString file).stem := by
      rw [FilePath.stem, name]
      rfl
    rw [run_readFile phrases, faultsIn, phrasesIn, if_pos phrases, if_pos phrases, faultsAt, phrasesAt,
      mappingAt?, suffix, stem]
    cases source.read (base.join (.ofString file)) with
    | none => rfl
    | some text =>
      simp only [ofSource_eq, Option.map_some]
      cases reader.decode (FilePath.ofString file).lowerSuffix text with
      | error fault => cases fault <;> rfl
      | ok value => cases value <;> rfl
  · have blank : readFile reader base file = pure [] := by
      rw [isPhraseFile] at phrases
      simp only [readFile]
      rw [if_neg phrases]
    rw [blank, faultsIn, phrasesIn, if_neg phrases, if_neg phrases]
    rfl

/-! ## All files -/

theorem told_mapM_readFile (files : List String) : (files.mapM (readFile reader base)).run.told source =
    unlessAny (files.flatMap (faultsIn reader source base)) (files.map (phrasesIn reader source base)) := by
  induction files with
  | nil => rfl
  | cons file files ih =>
    have first : Steady .everything (readFile reader base file).run :=
      steady_readFile (phrasesMatter_everything base)
    have rest : Steady .everything (files.mapM (readFile reader base)).run :=
      steady_run_mapM fun _ _ => steady_readFile (phrasesMatter_everything base)
    rw [List.mapM_cons, told_run_bind first fun _ => steady_run_bind rest fun _ => steady_run_pure _]
    simp only [told_run_bind rest fun _ => steady_run_pure _]
    rw [told_readFile, ih]
    exact unlessAny_append _ _ _ _ List.cons

/-- The first fault in the listed files is told, or else the catalogue of the phrases in all of them. -/
theorem told_readCatalogue (source : FileSource) (root : FilePath) (directory : String) :
    (readCatalogue reader root directory).run.told source =
      unlessAny ((source.list (root / directory)).flatMap (faultsIn reader source (root / directory)))
        (.ofList ((source.list (root / directory)).flatMap (phrasesIn reader source (root / directory)))) := by
  have later (files : List String) : Steady .everything
      (Catalogue.ofList <$> List.flatten <$> files.mapM (readFile reader (root / directory))).run := by
    simp only [ExceptT.run_map]
    exact steady_map _ (steady_map _ (steady_run_mapM fun _ _ =>
      steady_readFile (phrasesMatter_everything _)))
  have told (files : List String) :
      (Catalogue.ofList <$> List.flatten <$> files.mapM (readFile reader (root / directory))).run.told source =
        Catalogue.ofList <$> List.flatten <$>
          (files.mapM (readFile reader (root / directory))).run.told source := by
    simp only [ExceptT.run_map]
    rfl
  rw [run_readCatalogue, told_bind steady_listFiles later, told, told_mapM_readFile]
  change _ <$> _ <$> unlessAny ((source.list (root / directory)).flatMap _) _ = _
  cases (source.list (root / directory)).flatMap (faultsIn reader source (root / directory)) <;> rfl

end

/-! ## Files that are taken away -/

section
variable (reader : Reader) (source : FileSource) (root : FilePath) (directory : String)

/-- A file is of no use to phrases: it cannot be read, is malformed or holds no mapping. -/
def isUseless (path : FilePath) : Bool := (mappingAt? reader source path).isNone

/-- A file is of no use to phrases, or has a fault that is not passed over. -/
def isSpoilt (path : FilePath) : Bool := isUseless reader source path || !(faultsAt reader source path).isEmpty

section
variable {base : FilePath} {file : String}

theorem phrasesIn_of_useless (useless : isUseless reader source (base.join (.ofString file)) = true) :
    phrasesIn reader source base file = [] := by
  rw [isUseless, Option.isNone_iff_eq_none] at useless
  rw [phrasesIn, phrasesAt, useless, ite_self]

theorem faultsIn_of_not_spoilt (sound : isSpoilt reader source (base.join (.ofString file)) = false) :
    faultsIn reader source base file = [] := by
  rw [isSpoilt, Bool.or_eq_false_iff, Bool.not_eq_false', List.isEmpty_iff] at sound
  rw [faultsIn, sound.2, ite_self]

end

/-- What contributes nothing can be left out. -/
theorem flatMap_filter_of_nil {α β : Type} {keep : α → Bool} {f : α → List β} {items : List α}
    (nothing : ∀ a ∈ items, keep a = false → f a = []) : (items.filter keep).flatMap f = items.flatMap f := by
  induction items with
  | nil => rfl
  | cons a items ih =>
    have rest := ih fun b member => nothing b (List.mem_cons_of_mem _ member)
    rw [List.filter_cons, List.flatMap_cons]
    split
    · rw [List.flatMap_cons, rest]
    · rename_i left
      rw [rest, nothing a List.mem_cons_self (by simpa using left), List.nil_append]

/-- The listed files that are not taken away. -/
def keptFiles (gone : FilePath → Bool) (base : FilePath) : List String :=
  (source.list base).filter fun file => !gone (base.join (.ofString file))

variable {source} in
theorem read_without {gone : FilePath → Bool} {base : FilePath} {file : String}
    (kept : file ∈ keptFiles source gone base) : (source.without gone).read (base.join (.ofString file)) =
      source.read (base.join (.ofString file)) := by
  obtain ⟨-, stays⟩ := List.mem_filter.mp kept
  exact if_neg (by simpa using stays)

/-- Without some files only the others count. -/
theorem told_without (gone : FilePath → Bool) :
    (readCatalogue reader root directory).run.told (source.without gone) =
      unlessAny ((keptFiles source gone (root / directory)).flatMap (faultsIn reader source (root / directory)))
        (.ofList ((keptFiles source gone (root / directory)).flatMap
          (phrasesIn reader source (root / directory)))) := by
  have listed : (source.without gone).list (root / directory) =
      keptFiles source gone (root / directory) := rfl
  have faults : ∀ file ∈ keptFiles source gone (root / directory),
      faultsIn reader (source.without gone) (root / directory) file =
        faultsIn reader source (root / directory) file := by
    intro file kept
    simp only [faultsIn, faultsAt, read_without kept]
  have phrases : ∀ file ∈ keptFiles source gone (root / directory),
      phrasesIn reader (source.without gone) (root / directory) file =
        phrasesIn reader source (root / directory) file := by
    intro file kept
    simp only [phrasesIn, phrasesAt, mappingAt?, read_without kept]
  rw [told_readCatalogue, listed, List.flatMap_congr faults, List.flatMap_congr phrases]

/-- If all that is wrong with files is that they are of no use to phrases, the catalogue is that of the others.
If there is a fault that is not passed over, the first one is told instead, though there is a catalogue without
the spoilt files. -/
theorem readCatalogue_without_useless :
    match (source.list (root / directory)).flatMap (faultsIn reader source (root / directory)) with
    | [] => ∃ catalogue, (readCatalogue reader root directory).run.told source = .ok catalogue ∧
      (readCatalogue reader root directory).run.told (source.without (isUseless reader source)) = .ok catalogue
    | fault :: _ => (readCatalogue reader root directory).run.told source = .error fault ∧
      ∃ catalogue, (readCatalogue reader root directory).run.told
        (source.without (isSpoilt reader source)) = .ok catalogue := by
  split
  · rename_i sound
    have faultless := List.flatMap_eq_nil_iff.mp sound
    have keptFaultless : (keptFiles source (isUseless reader source) (root / directory)).flatMap
        (faultsIn reader source (root / directory)) = [] :=
      List.flatMap_eq_nil_iff.mpr fun file kept => faultless file (List.mem_filter.mp kept).1
    refine ⟨_, by rw [told_readCatalogue, sound, unlessAny], ?_⟩
    rw [told_without, keptFaultless, unlessAny, keptFiles, flatMap_filter_of_nil]
    intro file _ useless
    exact phrasesIn_of_useless reader source (by simpa using useless)
  · rename_i fault more found
    have keptFaultless : (keptFiles source (isSpoilt reader source) (root / directory)).flatMap
        (faultsIn reader source (root / directory)) = [] := by
      refine List.flatMap_eq_nil_iff.mpr fun file kept => ?_
      obtain ⟨-, sound⟩ := List.mem_filter.mp kept
      exact faultsIn_of_not_spoilt reader source (by simpa using sound)
    have told := told_without reader source root directory (isSpoilt reader source)
    rw [keptFaultless] at told
    exact ⟨by rw [told_readCatalogue, found, unlessAny], _, told⟩

end

/-- A day that does not exist hurts the phrases of the other file. -/
theorem readCatalogue_of_impossible_day :
    let files : FileSource := ⟨fun _ => ["de.yaml", "fr.json"], fun path =>
      if path.name = "de.yaml".toList then some "since: 2020-13-01\n"
      else some "\x7b\"ok\": \"oui\"\x7d"⟩
    (readCatalogue .usual (.ofString "/p") "translations").run.told files = .error (.calendar .month) ∧
      (readCatalogue .usual (.ofString "/p") "translations").run.told (files.without (isSpoilt .usual files)) =
        .ok [("ok", [⟨"fr", "oui"⟩])] := by
  decide +kernel

end Phrase

end EmberAssist
