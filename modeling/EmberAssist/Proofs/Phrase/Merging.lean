import Mathlib.Data.List.Forall2
import Mathlib.Data.List.Induction
import Mathlib.Data.List.Nodup
import EmberAssist.Completion.PhraseKey
import EmberAssist.Proofs.Files.Viewing
import EmberAssist.Proofs.Phrase.Faults

/-! Phrases of several files in one catalogue. All texts are kept, those of a key together under it: the keys in
the order in which they come first, and the texts of each key in the order in which they come. -/
namespace EmberAssist

open FileReader

namespace Phrase

variable {phrases : List (String × Entry)} {key : String}

/-! ## Grouping by keys -/

/-- The different keys of phrases, in the order in which they come first. -/
def keysOf (phrases : List (String × Entry)) : List String := (phrases.map Prod.fst).eraseDups

/-- The texts of a key among phrases, in the order in which they come. -/
def textsOf (phrases : List (String × Entry)) (key : String) : List Entry :=
  (phrases.filter (·.1 == key)).map Prod.snd

theorem mem_keysOf : key ∈ keysOf phrases ↔ ∃ text, (key, text) ∈ phrases := by
  simp [keysOf, List.mem_eraseDups]

theorem keysOf_append (phrases : List (String × Entry)) (key : String) (text : Entry) :
    keysOf (phrases ++ [(key, text)]) =
      if key ∈ keysOf phrases then keysOf phrases else keysOf phrases ++ [key] := by
  have fresh : ([key].removeAll (phrases.map Prod.fst)).eraseDups =
      if key ∈ keysOf phrases then [] else [key] := by
    by_cases known : key ∈ keysOf phrases
    · have before : key ∈ phrases.map Prod.fst := List.mem_eraseDups.mp known
      rw [if_pos known, List.removeAll, List.filter_cons_of_neg (by simpa using before)]
      rfl
    · have before : key ∉ phrases.map Prod.fst := fun member => known (List.mem_eraseDups.mpr member)
      rw [if_neg known, List.removeAll, List.filter_cons_of_pos (by simpa using before)]
      rfl
  unfold keysOf at fresh ⊢
  rw [List.map_append, List.eraseDups_append, List.map_singleton, fresh]
  split
  · exact List.append_nil _
  · rfl

theorem nodup_keysOf (phrases : List (String × Entry)) : (keysOf phrases).Nodup := by
  induction phrases using List.reverseRecOn with
  | nil => exact List.nodup_nil
  | append_singleton phrases phrase ih =>
    rw [keysOf_append]
    split
    · exact ih
    · rename_i fresh
      rw [← List.concat_eq_append]
      exact ih.concat fresh

theorem textsOf_append (phrases : List (String × Entry)) (key other : String) (text : Entry) :
    textsOf (phrases ++ [(key, text)]) other =
      textsOf phrases other ++ if key = other then [text] else [] := by
  unfold textsOf
  rw [List.filter_append, List.map_append]
  by_cases same : key = other <;> simp [same]

theorem textsOf_eq_nil (unknown : key ∉ keysOf phrases) : textsOf phrases key = [] := by
  unfold textsOf
  rw [List.map_eq_nil_iff, List.filter_eq_nil_iff]
  intro phrase member same
  rw [beq_iff_eq] at same
  exact unknown (mem_keysOf.mpr ⟨phrase.2, same ▸ member⟩)

theorem textsOf_ne_nil (known : key ∈ keysOf phrases) : textsOf phrases key ≠ [] := by
  obtain ⟨text, member⟩ := mem_keysOf.mp known
  intro none
  have kept : text ∈ textsOf phrases key :=
    List.mem_map.mpr ⟨(key, text), List.mem_filter.mpr ⟨member, by simp⟩, rfl⟩
  rw [none] at kept
  exact List.not_mem_nil kept

/-- A text is put behind those of its key, which comes last if it is new. -/
theorem add_map {texts : String → List Entry} {keys : List String} (distinct : keys.Nodup)
    (untold : key ∉ keys → texts key = []) (text : Entry) :
    Catalogue.add key text (keys.map fun known => (known, texts known)) =
      (if key ∈ keys then keys else keys ++ [key]).map fun known =>
        (known, texts known ++ if key = known then [text] else []) := by
  induction keys with
  | nil => simp [Catalogue.add, untold]
  | cons first keys ih =>
    obtain ⟨alone, distinct⟩ := List.nodup_cons.mp distinct
    rw [List.map_cons, Catalogue.add]
    by_cases same : first = key
    · subst same
      have others : ∀ known ∈ keys, (known, texts known) =
          (known, texts known ++ if first = known then [text] else []) := by
        intro known member
        have different : first ≠ known := fun again => alone (again ▸ member)
        rw [if_neg different, List.append_nil]
      rw [if_pos rfl, if_pos List.mem_cons_self, List.map_cons, if_pos rfl, List.map_congr_left others]
    · have later : key ∈ first :: keys ↔ key ∈ keys := by simp [Ne.symm same]
      rw [if_neg same, ih distinct fun absent => untold (later.not.mpr absent)]
      by_cases known : key ∈ keys
      · rw [if_pos known, if_pos (later.mpr known)]
        simp [Ne.symm same]
      · rw [if_neg known, if_neg (later.not.mpr known)]
        simp [Ne.symm same]

/-- The catalogue of phrases groups their texts by their keys. -/
theorem ofList_eq (phrases : List (String × Entry)) :
    Catalogue.ofList phrases = (keysOf phrases).map fun key => (key, textsOf phrases key) := by
  induction phrases using List.reverseRecOn with
  | nil => rfl
  | append_singleton phrases phrase ih =>
    obtain ⟨key, text⟩ := phrase
    have step : Catalogue.ofList (phrases ++ [(key, text)]) = (Catalogue.ofList phrases).add key text :=
      List.foldl_append
    rw [step, ih, add_map (nodup_keysOf phrases) textsOf_eq_nil, keysOf_append]
    simp only [textsOf_append]

/-! ## Reading all files -/

section
variable {reader : Reader} {root base : FilePath} {directory : String}

/-- The phrases in the files below a directory, file by file in the order in which they are listed. -/
def phrasesBelow (reader : Reader) (source : FileSource) (base : FilePath) : List (String × Entry) :=
  (source.list base).flatMap (phrasesIn reader source base)

theorem readsView_readFile (file : String) : ReadsView (readFile reader base file).run := by
  simp only [readFile]
  split
  · apply readsView_run_bind
    · exact readsView_bind readsView_readText fun _ => readsView_pure _
    · intro text
      cases text with
      | some text => exact readsView_pure _
      | none => exact readsView_pure _
  · exact readsView_pure _

theorem readsView_readCatalogue : ReadsView (readCatalogue reader root directory).run := by
  rw [run_readCatalogue]
  apply readsView_bind readsView_listFiles
  intro files
  simp only [ExceptT.run_map]
  exact readsView_map _ (readsView_map _ (readsView_run_mapM readsView_readFile files))

/-- Whatever is read as the catalogue groups the phrases in the files that are seen. -/
theorem eq_of_readCatalogue {access : FileAccess} {catalogue : Catalogue}
    (read : ((readCatalogue reader root directory).run access).1 = .ok catalogue) :
    catalogue = (keysOf (phrasesBelow reader access.view (root / directory))).map fun key =>
      (key, textsOf (phrasesBelow reader access.view (root / directory)) key) := by
  rw [readsView_readCatalogue.answer, told_readCatalogue] at read
  rw [← ofList_eq, phrasesBelow]
  generalize List.flatMap (faultsIn _ _ _) _ = faults at read
  cases faults with
  | nil => exact (Except.ok.inj read).symm
  | cons fault faults => cases read

end

/-! ## Offering keys -/

/-- A candidate offers a key of phrases, which is put where what has been typed of it begins. Its remark is the
first text of the key. -/
structure Offers (phrases : List (String × Entry)) (start : Position) (key : String) (candidate : Candidate) :
    Prop where
  kind : candidate.kind = .value
  label : candidate.label = key
  detail : ∃ first, (textsOf phrases key).head? = some first ∧
    candidate.detail = first.locale ++ " : " ++ first.text
  edit : candidate.edit = some ⟨⟨start, start⟩, key⟩

theorem offers_ofPhrase (known : key ∈ keysOf phrases) (start : Position) :
    Offers phrases start key (Completion.ofPhrase start key (textsOf phrases key)) := by
  obtain ⟨first, rest, told⟩ := List.exists_cons_of_ne_nil (textsOf_ne_nil known)
  exact {
    kind := rfl
    label := rfl
    detail := ⟨first, by rw [told]; rfl, by rw [told]; rfl⟩
    edit := rfl }

/-- The keys of phrases that begin with what has been typed. -/
def keysBeginning (phrases : List (String × Entry)) (typed : String) : List String :=
  (keysOf phrases).filter fun key => Text.startsWith key.toList typed.toList

/-- One candidate is offered for each key that begins with what has been typed. -/
theorem offers_keyCandidates (phrases : List (String × Entry)) (key : Completion.TypedKey) :
    List.Forall₂ (Offers phrases key.start) (keysBeginning phrases key.typed)
      (Completion.keyCandidates ((keysOf phrases).map fun known => (known, textsOf phrases known)) key) := by
  unfold Completion.keyCandidates
  rw [List.filter_map, List.map_map, List.forall₂_map_right_iff]
  apply List.forall₂_same.mpr
  intro known member
  exact offers_ofPhrase (List.mem_filter.mp member).1 key.start

end Phrase

end EmberAssist
