import Mathlib.Data.List.Forall2
import Mathlib.Order.Bounds.Basic
import EmberAssist.Completion.Ranking
import EmberAssist.Proofs.Text

/-! The order of names that fit what has been typed. They are ranked by how much of them agrees with it, but
all that is typed agrees with every name that fits; so a shorter name is the more similar one, and names of
the same length stay in their order. -/
namespace EmberAssist.Completion

variable {a b c part pattern text : List Char} {count : Nat}

/-! ## What two texts have in common -/

/-- The length of a longest text whose characters two texts have in common, in their order but not
necessarily side by side. -/
def IsCommonLength (a b : List Char) (length : Nat) : Prop :=
  IsGreatest {length | ∃ part : List Char, part.Sublist a ∧ part.Sublist b ∧ part.length = length} length

namespace IsCommonLength

theorem nil_left (b : List Char) : IsCommonLength [] b 0 := by
  refine ⟨⟨[], List.Sublist.refl _, List.nil_sublist _, rfl⟩, ?_⟩
  rintro _ ⟨part, left, -, rfl⟩
  simp [List.sublist_nil.mp left]

theorem nil_right (a : List Char) : IsCommonLength a [] 0 := by
  refine ⟨⟨[], List.nil_sublist _, List.Sublist.refl _, rfl⟩, ?_⟩
  rintro _ ⟨part, -, right, rfl⟩
  simp [List.sublist_nil.mp right]

/-- A first character that two texts have in common is one of the longest common part. -/
theorem cons_same (first : Char) (known : IsCommonLength a b count) :
    IsCommonLength (first :: a) (first :: b) (1 + count) := by
  obtain ⟨⟨part, left, right, length⟩, longest⟩ := known
  refine ⟨⟨first :: part, left.cons_cons first, right.cons_cons first, ?_⟩, ?_⟩
  · rw [List.length_cons, length, Nat.add_comm]
  · rintro _ ⟨other, left, right, rfl⟩
    have behind := longest ⟨other.tail, left.tail, right.tail, rfl⟩
    rw [List.length_tail] at behind
    omega

/-- Of two first characters that differ at least one is not in the longest common part. -/
theorem cons_other {first other : Char} {more : Nat} (differ : first ≠ other)
    (left : IsCommonLength (first :: a) b count) (right : IsCommonLength a (other :: b) more) :
    IsCommonLength (first :: a) (other :: b) (max count more) := by
  constructor
  · rcases le_total count more with less | less
    · obtain ⟨part, inLeft, inRight, length⟩ := right.1
      exact ⟨part, inLeft.cons first, inRight, by rw [length, max_eq_right less]⟩
    · obtain ⟨part, inLeft, inRight, length⟩ := left.1
      exact ⟨part, inLeft, inRight.cons other, by rw [length, max_eq_left less]⟩
  · rintro _ ⟨part, inLeft, inRight, rfl⟩
    rcases List.sublist_cons_iff.mp inRight with inRest | ⟨rest, rfl, -⟩
    · exact (left.2 ⟨part, inLeft, inRest, rfl⟩).trans (le_max_left _ _)
    rcases List.sublist_cons_iff.mp inLeft with inRest | ⟨_, same, -⟩
    · exact (right.2 ⟨_, inRest, inRight, rfl⟩).trans (le_max_right _ _)
    · exact absurd (List.cons.inj same).1.symm differ

end IsCommonLength

/-- A row of lengths, one for each end of a pattern. -/
def IsRow (pattern text : List Char) (lengths : List Nat) : Prop :=
  List.Forall₂ (IsCommonLength · text) pattern.tails lengths

theorem IsRow.head {lengths : List Nat} (row : IsRow pattern text lengths) :
    IsCommonLength pattern text (lengths.headD 0) := by
  cases pattern <;> cases row <;> assumption

theorem isRow_commonStep {lengths : List Nat} (row : IsRow pattern text lengths) (first : Char) :
    IsRow pattern (first :: text) (commonStep first pattern lengths) := by
  induction pattern generalizing lengths with
  | nil =>
    have single : commonStep first [] lengths = [0] := by cases lengths <;> rfl
    rw [single]
    exact .cons (.nil_left _) .nil
  | cons own pattern ih =>
    obtain _ | ⟨here, shorter⟩ := row
    have known := ih shorter
    refine .cons ?_ known
    split
    · rename_i same
      rw [eq_of_beq same]
      exact .cons_same first (IsRow.head shorter)
    · rename_i differ
      exact .cons_other (by simpa using differ) here (IsRow.head known)

theorem isRow_commonLengths (pattern text : List Char) :
    IsRow pattern text (commonLengths pattern text) := by
  induction text with
  | nil =>
    unfold commonLengths
    induction pattern with
    | nil => exact .cons (.nil_right _) .nil
    | cons own pattern ih => exact .cons (.nil_right _) ih
  | cons first text ih => exact isRow_commonStep ih first

/-- The length that is computed row by row is that of a longest common part. -/
theorem isCommonLength_commonLength (a b : List Char) : IsCommonLength a b (commonLength a b) :=
  (isRow_commonLengths a b).head

/-- A text that is a part of another has all of itself in common with it. -/
theorem commonLength_of_sublist (fits : a.Sublist b) : commonLength a b = a.length := by
  obtain ⟨⟨part, left, -, length⟩, longest⟩ := isCommonLength_commonLength a b
  exact le_antisymm (length ▸ left.length_le) (longest ⟨a, List.Sublist.refl a, fits, rfl⟩)

/-! ## Insertions and deletions -/

/-- One character is inserted into a text or deleted from it. -/
inductive Edit : List Char → List Char → Prop where
  | insert (front : List Char) (c : Char) (back : List Char) :
      Edit (front ++ back) (front ++ c :: back)
  | delete (front : List Char) (c : Char) (back : List Char) :
      Edit (front ++ c :: back) (front ++ back)

/-- So many edits turn one text into another. -/
inductive Edits : Nat → List Char → List Char → Prop where
  | none (a : List Char) : Edits 0 a a
  | step {count : Nat} {a b c : List Char} : Edit a b → Edits count b c → Edits (count + 1) a c

namespace Edits

theorem trans {more : Nat} (edits : Edits count a b) (others : Edits more b c) :
    Edits (count + more) a c := by
  induction edits with
  | none => rwa [Nat.zero_add]
  | step edit _ ih =>
    rw [Nat.succ_add]
    exact .step edit (ih others)

/-- Behind a character that stays the same edits can be made. -/
theorem cons (first : Char) (edits : Edits count a b) : Edits count (first :: a) (first :: b) := by
  induction edits with
  | none => exact .none _
  | step edit _ ih =>
    cases edit with
    | insert front c back => exact .step (.insert (first :: front) c back) ih
    | delete front c back => exact .step (.delete (first :: front) c back) ih

/-- All characters that are not in a part of a text can be deleted. -/
theorem to_part (fits : part.Sublist a) (length : a.length = part.length + count) :
    Edits count a part := by
  induction fits generalizing count with
  | slnil =>
    obtain rfl : count = 0 := by simpa using length.symm
    exact .none _
  | @cons part a first fits ih =>
    have shorter := fits.length_le
    rw [List.length_cons] at length
    obtain ⟨count, rfl⟩ := Nat.exists_eq_add_one_of_ne_zero (show count ≠ 0 by omega)
    exact .step (.delete [] first a) (ih (by omega))
  | cons_cons first _ ih =>
    simp only [List.length_cons] at length
    exact (ih (by omega)).cons first

/-- And they can be inserted again. -/
theorem of_part (fits : part.Sublist a) (length : a.length = part.length + count) :
    Edits count part a := by
  induction fits generalizing count with
  | slnil =>
    obtain rfl : count = 0 := by simpa using length.symm
    exact .none _
  | @cons part a first fits ih =>
    have shorter := fits.length_le
    rw [List.length_cons] at length
    obtain ⟨count, rfl⟩ := Nat.exists_eq_add_one_of_ne_zero (show count ≠ 0 by omega)
    exact .step (.insert [] first part) ((ih (by omega)).cons first)
  | cons_cons first _ ih =>
    simp only [List.length_cons] at length
    exact (ih (by omega)).cons first

end Edits

/-- An insertion adds at most one character to what is in common with another text. -/
theorem commonLength_insert (front : List Char) (first : Char) (back text : List Char) :
    commonLength (front ++ first :: back) text ≤ commonLength (front ++ back) text + 1 := by
  obtain ⟨part, left, right, length⟩ := (isCommonLength_commonLength (front ++ first :: back) text).1
  have longest {other : List Char} (inLeft : other.Sublist (front ++ back))
      (inRight : other.Sublist text) : other.length ≤ commonLength (front ++ back) text :=
    (isCommonLength_commonLength (front ++ back) text).2 ⟨other, inLeft, inRight, rfl⟩
  rw [← length]
  obtain ⟨before, behind, rfl, inFront, inBack⟩ := List.sublist_append_iff.mp left
  rcases List.sublist_cons_iff.mp inBack with inRest | ⟨rest, rfl, inRest⟩
  · exact (longest (inFront.append inRest) right).trans (Nat.le_succ _)
  · have kept : (before ++ rest).Sublist (before ++ first :: rest) :=
      (List.sublist_cons_self first rest).append_left before
    have shorter := longest (inFront.append inRest) (kept.trans right)
    simp only [List.length_append, List.length_cons] at shorter ⊢
    omega

theorem commonLength_delete (front : List Char) (first : Char) (back text : List Char) :
    commonLength (front ++ back) text ≤ commonLength (front ++ first :: back) text := by
  obtain ⟨part, left, right, length⟩ := (isCommonLength_commonLength (front ++ back) text).1
  have kept : (front ++ back).Sublist (front ++ first :: back) :=
    (List.sublist_cons_self first back).append_left front
  exact (isCommonLength_commonLength _ text).2 ⟨part, left.trans kept, right, length⟩

theorem distance_le_of_edit (edit : Edit a b) (text : List Char) :
    distance a text ≤ distance b text + 1 := by
  unfold distance
  cases edit with
  | insert front c back =>
    have more := commonLength_insert front c back text
    simp only [List.length_append, List.length_cons]
    omega
  | delete front c back =>
    have less := commonLength_delete front c back text
    simp only [List.length_append, List.length_cons]
    omega

theorem distance_le_of_edits (edits : Edits count a b) : distance a b ≤ count := by
  induction edits with
  | none a =>
    have same := commonLength_of_sublist (List.Sublist.refl a)
    unfold distance
    omega
  | step edit _ ih => exact (distance_le_of_edit edit _).trans (Nat.succ_le_succ ih)

/-- The distance is the least number of edits that turn one text into the other. -/
theorem distance_isLeast (a b : List Char) : IsLeast {count | Edits count a b} (distance a b) := by
  constructor
  · obtain ⟨part, left, right, length⟩ := (isCommonLength_commonLength a b).1
    have inLeft := left.length_le
    have inRight := right.length_le
    have deleted : Edits (a.length - part.length) a part := .to_part left (by omega)
    have inserted : Edits (b.length - part.length) part b := .of_part right (by omega)
    have count : distance a b = a.length - part.length + (b.length - part.length) := by
      unfold distance
      omega
    show Edits (distance a b) a b
    rw [count]
    exact deleted.trans inserted
  · exact fun _ edits => distance_le_of_edits edits

/-! ## Ranking -/

/-- A name fits what has been typed: whatever their case, it has all the characters in their order. -/
def Fits (query name : String) : Prop :=
  (Text.lower query.toList).Sublist (Text.lower name.toList)

instance (query name : String) : Decidable (Fits query name) :=
  inferInstanceAs (Decidable (List.Sublist _ _))

/-- The length of a name in lower case. -/
def lowerLength (name : String) : Nat := (Text.lower name.toList).length

section
variable {α : Type} (key : α → String)

/-- Whether the key of one item is no longer than that of another. -/
def noLonger (item other : α) : Bool := lowerLength (key item) ≤ lowerLength (key other)

theorem noLonger_iff {item other : α} :
    noLonger key item other = true ↔ lowerLength (key item) ≤ lowerLength (key other) :=
  decide_eq_true_iff

theorem noLonger_trans (item other third : α) (first : noLonger key item other = true)
    (second : noLonger key other third = true) : noLonger key item third = true := by
  rw [noLonger_iff] at *
  exact first.trans second

theorem noLonger_total (item other : α) :
    (noLonger key item other || noLonger key other item) = true := by
  rw [Bool.or_eq_true, noLonger_iff, noLonger_iff]
  exact le_total _ _

end

/-- All of a text agrees with a text that it is a part of; so the shorter of two such texts is the more
similar one. -/
theorem atLeast_similarity (filled : part ≠ []) (left : part.Sublist a) (right : part.Sublist b) :
    (similarity part a).atLeast (similarity part b) = decide (a.length ≤ b.length) := by
  have told {text : List Char} (fits : part.Sublist text) :
      similarity part text = ⟨2 * part.length, part.length + text.length⟩ := by
    have shorter := fits.length_le
    rw [similarity, distance, commonLength_of_sublist fits]
    congr 1
    omega
  have more : 0 < 2 * part.length := by
    have := List.length_pos_iff.mpr filled
    omega
  rw [told left, told right, Similarity.atLeast, decide_eq_decide]
  simp only
  rw [Nat.mul_le_mul_left_iff more, Nat.add_le_add_iff_left]

section
variable {α : Type} (key : α → String) {query : String} (typed : query ≠ "") (items : List α)

include typed in
/-- The names that fit are sorted by their lengths. -/
theorem rank_eq_mergeSort : rank key query items =
    (items.filter fun item => Fits query (key item)).mergeSort (noLonger key) := by
  have filled : Text.lower query.toList ≠ [] := by
    have characters : query.toList ≠ [] := by simpa using typed
    have shorter := Text.length_lower query.toList
    have := List.length_pos_iff.mpr characters
    exact List.ne_nil_of_length_pos (by omega)
  have kept : (items.filter fun item => (Text.lower query.toList).isSublist
      (Text.lower (key item).toList)) = items.filter fun item => Fits query (key item) := by
    congr 1
    funext item
    exact Bool.eq_iff_iff.mpr (List.isSublist_iff_sublist.trans decide_eq_true_iff.symm)
  rw [rank, if_neg (by simpa using typed)]
  simp only [kept]
  conv_lhs => rw [← List.map_id (List.mergeSort _ _)]
  rw [List.map_mergeSort, List.map_id]
  intro item member other otherMember
  have fits := of_decide_eq_true (List.mem_filter.mp member).2
  have otherFits := of_decide_eq_true (List.mem_filter.mp otherMember).2
  exact atLeast_similarity filled fits otherFits

end

/-- A merge sort is stable: of two items that are not told apart the one that was before the other stays
before it. -/
theorem pairwise_stable_mergeSort {α : Type} {le : α → α → Bool}
    (trans : ∀ a b c, le a b = true → le b c = true → le a c = true)
    (total : ∀ a b, (le a b || le b a) = true) {before : α → α → Prop} {items : List α}
    (ordered : items.Pairwise before) :
    (items.mergeSort le).Pairwise fun a b => le a b = true ∧ (le b a = true → before a b) := by
  rw [List.pairwise_iff_forall_sublist]
  intro a b pair
  have up := List.pairwise_iff_forall_sublist.mp (List.pairwise_mergeSort trans total items) pair
  refine ⟨up, fun down => ?_⟩
  have self : le a a = true := by simpa using total a a
  -- The items that are not told apart from the first of the two are sorted as they stand.
  let alike := fun c => le a c && le c a
  have sorted : (items.filter alike).Pairwise fun c d => le c d = true := by
    refine List.pairwise_of_forall_mem_list fun c first d second => ?_
    simp only [alike, List.mem_filter, Bool.and_eq_true] at first second
    exact trans _ _ _ first.2.2 second.2.1
  have kept := (List.sublist_mergeSort trans total sorted List.filter_sublist).filter alike
  have length := ((List.mergeSort_perm items le).filter alike).length_eq
  rw [List.filter_filter] at kept
  simp only [Bool.and_self] at kept
  have both : [a, b].filter alike = [a, b] := by simp [alike, self, up, down]
  have found := pair.filter alike
  rw [both, ← kept.eq_of_length length.symm] at found
  exact List.pairwise_iff_forall_sublist.mp ordered (found.trans List.filter_sublist)

section
variable {α : Type} (key : α → String) {query : String} (typed : query ≠ "") (items : List α)
include typed

/-- The names that fit are ranked place by place. -/
theorem exists_places : ∃ places : List Nat, places.Nodup ∧
    (∀ place, place ∈ places ↔ ∃ item, items[place]? = some item ∧ Fits query (key item)) ∧
    (rank key query items).map some = places.map (items[·]?) ∧
    places.Pairwise fun place later => ∀ item ∈ items[place]?, ∀ other ∈ items[later]?,
      lowerLength (key item) < lowerLength (key other) ∨
        lowerLength (key item) = lowerLength (key other) ∧ place < later := by
  let kept := items.zipIdx.filter fun entry => Fits query (key entry.1)
  let sorted := kept.mergeSort (noLonger fun entry => key entry.1)
  have ranked : sorted.map Prod.fst = rank key query items := by
    have whole : kept.map Prod.fst = items.filter fun item => Fits query (key item) := by
      conv_rhs => rw [← List.zipIdx_map_fst 0 items, List.filter_map]
      rfl
    rw [rank_eq_mergeSort key typed, ← whole]
    exact List.map_mergeSort fun _ _ _ _ => rfl
  have held {entry : α × Nat} :
      entry ∈ sorted ↔ items[entry.2]? = some entry.1 ∧ Fits query (key entry.1) := by
    rw [List.mem_mergeSort, List.mem_filter, decide_eq_true_iff, List.mem_zipIdx_iff_getElem?]
  have numbered : kept.Pairwise fun entry other => entry.2 < other.2 := by
    refine List.Pairwise.filter _ (List.pairwise_map.mp ?_)
    rw [List.zipIdx_map_snd]
    exact List.pairwise_lt_range'
  have stable : sorted.Pairwise fun entry other =>
      lowerLength (key entry.1) < lowerLength (key other.1) ∨
        lowerLength (key entry.1) = lowerLength (key other.1) ∧ entry.2 < other.2 := by
    refine (pairwise_stable_mergeSort (noLonger_trans _) (noLonger_total _) numbered).imp ?_
    rintro entry other ⟨up, before⟩
    rw [noLonger_iff] at up before
    rcases up.lt_or_eq with less | same
    · exact .inl less
    · exact .inr ⟨same, before same.ge⟩
  refine ⟨sorted.map Prod.snd, ?_, ?_, ?_, ?_⟩
  · have perm : (sorted.map Prod.snd).Perm (kept.map Prod.snd) :=
      (List.mergeSort_perm kept _).map Prod.snd
    rw [perm.nodup_iff]
    exact List.pairwise_map.mpr (numbered.imp ne_of_lt)
  · intro place
    rw [List.mem_map]
    constructor
    · rintro ⟨entry, member, rfl⟩
      exact ⟨entry.1, held.mp member⟩
    · rintro ⟨item, found⟩
      exact ⟨(item, place), held.mpr found, rfl⟩
  · rw [← ranked, List.map_map, List.map_map]
    exact List.map_congr_left fun entry member => (held.mp member).1.symm
  · rw [List.pairwise_map]
    refine stable.imp_of_mem ?_
    intro entry later member laterMember order item here other there
    cases (held.mp member).1.symm.trans here
    cases (held.mp laterMember).1.symm.trans there
    exact order

end

/-- Similarity leaves out the least number of insertions and deletions that turn what has been typed into a
name. The names that fit are ranked by their lengths: each place with such a name comes once, the shorter
name first, and of two names of the same length the one that was first. Ranked again they stay as they are. -/
theorem rank_by_length {α : Type} (key : α → String) {query : String} (typed : query ≠ "")
    (items : List α) :
    (∀ a b, ∃ distance, IsLeast {count | Edits count a b} distance ∧
      similarity a b = ⟨a.length + b.length - distance, a.length + b.length⟩) ∧
    (∃ places : List Nat, places.Nodup ∧
      (∀ place, place ∈ places ↔ ∃ item, items[place]? = some item ∧ Fits query (key item)) ∧
      (rank key query items).map some = places.map (items[·]?) ∧
      places.Pairwise fun place later => ∀ item ∈ items[place]?, ∀ other ∈ items[later]?,
        lowerLength (key item) < lowerLength (key other) ∨
          lowerLength (key item) = lowerLength (key other) ∧ place < later) ∧
    rank key query (rank key query items) = rank key query items := by
  refine ⟨fun a b => ⟨distance a b, distance_isLeast a b, rfl⟩, ?_, ?_⟩
  · exact exists_places key typed items
  · have fits : ∀ item ∈ rank key query items, decide (Fits query (key item)) = true := by
      intro item member
      rw [rank_eq_mergeSort key typed, List.mem_mergeSort, List.mem_filter] at member
      exact member.2
    rw [rank_eq_mergeSort key typed (rank key query items), List.filter_eq_self.mpr fits]
    apply List.mergeSort_of_pairwise
    rw [rank_eq_mergeSort key typed]
    exact List.pairwise_mergeSort (noLonger_trans key) (noLonger_total key) _

theorem rank_by_length_of_tied_names :
    let names := ["linking", "Link", "zap", "LIKE"]
    "lI" ≠ "" ∧ rank id "lI" names = ["Link", "LIKE", "linking"] ∧
      rank id "lI" (rank id "lI" names) = rank id "lI" names := by
  intro names
  have typed : "lI" ≠ "" := by decide
  obtain ⟨-, ⟨places, distinct, kept, ranked, ordered⟩, again⟩ := rank_by_length id typed names
  have fits : ∀ place, place ∈ places ↔ place ∈ [1, 3, 0] := by
    intro place
    rw [kept]
    match place with
    | 0 | 1 | 2 | 3 => decide +kernel
    | place + 4 => simp [names]
  have perm : places.Perm [1, 3, 0] := (List.perm_ext_iff_of_nodup distinct (by decide)).mpr fits
  have sorted : places = [1, 3, 0] := by
    refine perm.eq_of_pairwise ?_ ordered ?_
    · intro place later member laterMember first second
      obtain ⟨item, here, -⟩ := (kept place).mp member
      obtain ⟨other, there, -⟩ := (kept later).mp ((fits later).mpr laterMember)
      have less := first item here other there
      have more := second other there item here
      omega
    · decide +kernel
  rw [sorted] at ranked
  refine ⟨typed, ?_, again⟩
  exact List.map_injective_iff.mpr (Option.some_injective _) ranked

end EmberAssist.Completion
