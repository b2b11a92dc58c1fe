import EmberAssist.Completion.PhraseKey
import EmberAssist.Completion.Ranking
import EmberAssist.Proofs.Phrase.Merging

/-! The labels of what is offered. Whatever candidates are gathered, ranked or made from the keys of
phrases, no two of them have the same label. -/
namespace EmberAssist

variable {candidates : List Candidate} {seen : List String} {access : FileAccess}

/-- No two candidates have the same label. -/
def Candidate.Distinct (candidates : List Candidate) : Prop := (candidates.map label).Nodup

namespace Candidate

/-- Candidates that are left out or put in another order keep different labels different. -/
theorem Distinct.of_subperm {others : List Candidate} (distinct : Distinct candidates)
    {kept : List Candidate} (sublist : kept.Sublist candidates) (perm : others.Perm kept) :
    Distinct others :=
  (perm.map label).nodup_iff.mpr (distinct.sublist (sublist.map label))

/-- The labels of unique candidates are all different, and none of them has been seen before. -/
theorem distinct_uniqueFrom (seen : List String) (candidates : List Candidate) :
    Distinct (uniqueFrom seen candidates) ∧
      ∀ candidate ∈ uniqueFrom seen candidates, candidate.label ∉ seen := by
  induction candidates generalizing seen with
  | nil => simp [uniqueFrom, Distinct]
  | cons first rest ih =>
    unfold uniqueFrom
    split
    · exact ih seen
    · rename_i fresh
      obtain ⟨distinct, unseen⟩ := ih (first.label :: seen)
      have alone : first.label ∉ (uniqueFrom (first.label :: seen) rest).map label := by
        intro again
        obtain ⟨candidate, member, same⟩ := List.mem_map.mp again
        exact unseen candidate member (same ▸ List.mem_cons_self)
      refine ⟨List.nodup_cons.mpr ⟨alone, distinct⟩, fun candidate member => ?_⟩
      rcases List.mem_cons.mp member with rfl | later
      · simpa using fresh
      · exact fun again => unseen candidate later (List.mem_cons_of_mem _ again)

theorem distinct_uniqueByLabel (candidates : List Candidate) : Distinct (uniqueByLabel candidates) :=
  (distinct_uniqueFrom [] candidates).1

end Candidate

namespace Completion

open Candidate
open Template (Context)

/-! ## Names -/

/-- Ranking leaves items out and puts the others in another order. -/
theorem rank_perm {α : Type} (key : α → String) (query : String) (items : List α) :
    ∃ kept, kept.Sublist items ∧ (rank key query items).Perm kept := by
  unfold rank
  split
  · exact ⟨items, List.Sublist.refl items, List.Perm.refl items⟩
  · exact ⟨_, List.filter_sublist, List.mergeSort_perm _ _⟩

theorem distinct_rank (distinct : Distinct candidates) (query : String) :
    Distinct (rank label query candidates) := by
  obtain ⟨kept, sublist, perm⟩ := rank_perm label query candidates
  exact distinct.of_subperm sublist perm

/-- What is gathered in a context has been made unique in the end. -/
theorem distinct_gather (context : Context) (root : FilePath) (modules : List AppModule)
    (access : FileAccess) : Distinct (gather context root modules access).1 := by
  cases context <;> exact distinct_uniqueByLabel _

end Completion

/-! ## Keys of phrases -/

/-- The keys of a catalogue. -/
def Phrase.Catalogue.keys (catalogue : Catalogue) : List String := catalogue.map Prod.fst

/-- In a catalogue that is read, texts with the same key are collected under it. -/
theorem Phrase.nodup_keys_readCatalogue {reader : Reader} {root : FilePath} {directory : String}
    {catalogue : Catalogue} (read : ((readCatalogue reader root directory).run access).1 = .ok catalogue) :
    catalogue.keys.Nodup := by
  have keys : catalogue.keys = keysOf (phrasesBelow reader access.view (root / directory)) := by
    rw [eq_of_readCatalogue read, Catalogue.keys, List.map_map]
    exact List.map_id _
  rw [keys]
  exact nodup_keysOf _

namespace Completion

/-- The candidates for a key are some of the keys of the catalogue. -/
theorem distinct_keyCandidates {catalogue : Phrase.Catalogue} (distinct : catalogue.keys.Nodup)
    (key : TypedKey) : Candidate.Distinct (keyCandidates catalogue key) := by
  have labels : (keyCandidates catalogue key).map Candidate.label =
      (catalogue.filter fun phrase => Text.startsWith phrase.1.toList key.typed.toList).map Prod.fst := by
    rw [keyCandidates, List.map_map]
    rfl
  rw [Candidate.Distinct, labels]
  exact distinct.sublist (List.filter_sublist.map Prod.fst)

end Completion

end EmberAssist
