import EmberAssist.Proofs.Completion.Ranking

/-! Names that are typed letter by letter as they are written. Both what is typed and a name are put into
lower case as a whole, and a capital sigma gets another small letter at the end of a word than elsewhere; what
is typed may end where a word of the name goes on. This is the only letter by which such a name can be lost. -/
namespace EmberAssist.Text

variable {query text : List Char}

/-! ## Without sigmas -/

/-- Without a capital sigma every part of a text is such a part in lower case too. -/
theorem lowerAfter_sublist (part : query.Sublist text) (free : 'Σ' ∉ query)
    (before beyond : List Char) : (lowerAfter before query).Sublist (lowerAfter beyond text) := by
  induction part generalizing before beyond with
  | slnil => exact List.Sublist.refl _
  | cons c _ ih =>
    rw [lowerAfter]
    exact (ih free before (c :: beyond)).trans (List.sublist_append_right _ _)
  | cons_cons c _ ih =>
    simp only [List.mem_cons, not_or] at free
    rw [lowerAfter_other (Ne.symm free.1), lowerAfter_other (Ne.symm free.1)]
    exact (ih free.2 _ _).append_left _

/-! ## Sigmas -/

/-- How many capital sigmas of a text end a word, given the characters before it, nearest first. -/
def finalSigmas (before : List Char) : List Char → Nat
  | [] => 0
  | c :: rest =>
    (if c = 'Σ' ∧ endsWord before rest = true then 1 else 0) + finalSigmas (c :: before) rest

/-- How often a character is in the lower case of what is not a capital sigma. -/
def countApart (letter : Char) : List Char → Nat
  | [] => 0
  | c :: rest => (if c = 'Σ' then 0 else (lowerAlone c).count letter) + countApart letter rest

theorem count_final (before text : List Char) :
    (lowerAfter before text).count 'ς' = countApart 'ς' text + finalSigmas before text := by
  induction text generalizing before with
  | nil => rfl
  | cons c text ih =>
    by_cases sigma : c = 'Σ'
    · subst sigma
      rw [lowerAfter_sigma, countApart, finalSigmas, List.count_cons, ih]
      cases endsWord before text with
      | false => simp
      | true =>
        simp only [and_self, beq_self_eq_true, ↓reduceIte]
        omega
    · rw [lowerAfter_other sigma, countApart, finalSigmas, List.count_append, ih, if_neg sigma,
        if_neg fun final => sigma final.1]
      omega

theorem count_medial (before text : List Char) :
    (lowerAfter before text).count 'σ' + finalSigmas before text =
      countApart 'σ' text + text.count 'Σ' := by
  induction text generalizing before with
  | nil => rfl
  | cons c text ih =>
    have rest := ih (c :: before)
    by_cases sigma : c = 'Σ'
    · subst sigma
      rw [lowerAfter_sigma, countApart, finalSigmas, List.count_cons, List.count_cons_self]
      cases endsWord before text with
      | false =>
        simp only [Bool.false_eq_true, and_false, beq_self_eq_true, ↓reduceIte]
        omega
      | true =>
        simp only [and_self, ↓reduceIte, Char.reduceBEq, Bool.false_eq_true]
        omega
    · rw [lowerAfter_other sigma, countApart, finalSigmas, List.count_append, if_neg sigma,
        if_neg fun final => sigma final.1, List.count_cons_of_ne sigma]
      omega

/-- A text with something put before and behind every capital sigma. -/
def aroundSigmas (front back : List Char) : List Char → List Char
  | [] => []
  | c :: rest => (if c = 'Σ' then front ++ c :: back else [c]) ++ aroundSigmas front back rest

theorem sublist_aroundSigmas (front back text : List Char) :
    text.Sublist (aroundSigmas front back text) := by
  induction text with
  | nil => exact List.Sublist.refl _
  | cons c text ih =>
    have first : [c].Sublist (if c = 'Σ' then front ++ c :: back else [c]) := by
      split
      · exact List.singleton_sublist.mpr (by simp)
      · exact List.Sublist.refl _
    exact first.append ih

theorem meetsLetter_slash (text : List Char) : meetsLetter ('/' :: text) = false :=
  meetsLetter_append [] text

theorem meetsLetter_letter (text : List Char) : meetsLetter ('A' :: text) = true := by
  have kept : skippedMarks.contains 'A' = false := by
    rw [RangeTable.contains, ← Array.any_toList]
    decide +kernel
  have letter : wordLetters.contains 'A' = true := by
    rw [RangeTable.contains, ← Array.any_toList]
    decide +kernel
  rw [meetsLetter_cons, kept, if_neg Bool.false_ne_true, letter]

/-- Behind a slash no capital sigma ends a word. -/
theorem finalSigmas_medial (before text : List Char) :
    finalSigmas before (aroundSigmas ['/'] [] text) = 0 := by
  induction text generalizing before with
  | nil => rfl
  | cons c text ih =>
    rw [aroundSigmas]
    split
    · simp [finalSigmas, endsWord, meetsLetter_slash, ih]
    · rename_i other
      simp [finalSigmas, other, ih]

/-- Between a letter and a slash every capital sigma ends a word. -/
theorem finalSigmas_final (before text : List Char) :
    finalSigmas before (aroundSigmas ['A'] ['/'] text) = (aroundSigmas ['A'] ['/'] text).count 'Σ' := by
  induction text generalizing before with
  | nil => rfl
  | cons c text ih =>
    rw [aroundSigmas, List.count_append]
    split
    · rename_i sigma
      simp [finalSigmas, endsWord, meetsLetter_slash, meetsLetter_letter, sigma, ih]
    · rename_i other
      simp [finalSigmas, other, ih]

theorem countApart_append (letter : Char) (front back : List Char) :
    countApart letter (front ++ back) = countApart letter front + countApart letter back := by
  induction front with
  | nil => simp [countApart]
  | cons c front ih => simp [countApart, ih, Nat.add_assoc]

theorem countApart_aroundSigmas {letter : Char} {front back : List Char}
    (none : countApart letter front = 0) (nor : countApart letter back = 0) (text : List Char) :
    countApart letter (aroundSigmas front back text) = countApart letter text := by
  induction text with
  | nil => rfl
  | cons c text ih =>
    rw [aroundSigmas, countApart_append, ih, countApart]
    split
    · rename_i sigma
      simp [countApart_append, countApart, none, nor, sigma]
    · rename_i other
      simp [countApart, other]

/-- A text with a capital sigma is part of another that does not have all of it in lower case: one in which
no capital sigma ends a word if one of the text's own does, and one in which they all do otherwise. -/
theorem exists_text_beyond (sigma : 'Σ' ∈ query) :
    ∃ text : List Char, query.Sublist text ∧ ¬ (lower query).Sublist (lower text) := by
  by_cases medial : finalSigmas [] query = 0
  · refine ⟨aroundSigmas ['A'] ['/'] query, sublist_aroundSigmas _ _ _, fun part => ?_⟩
    have fewer : (lower query).count 'σ' ≤ (lower (aroundSigmas ['A'] ['/'] query)).count 'σ' :=
      part.count_le 'σ'
    have same : countApart 'σ' (aroundSigmas ['A'] ['/'] query) = countApart 'σ' query :=
      countApart_aroundSigmas (by decide) (by decide) query
    have own := count_medial [] query
    have other := count_medial [] (aroundSigmas ['A'] ['/'] query)
    rw [finalSigmas_final, same] at other
    have occurs := List.count_pos_iff.mpr sigma
    rw [lower, lower] at fewer
    omega
  · refine ⟨aroundSigmas ['/'] [] query, sublist_aroundSigmas _ _ _, fun part => ?_⟩
    have fewer : (lower query).count 'ς' ≤ (lower (aroundSigmas ['/'] [] query)).count 'ς' :=
      part.count_le 'ς'
    have same : countApart 'ς' (aroundSigmas ['/'] [] query) = countApart 'ς' query :=
      countApart_aroundSigmas (by decide) (by decide) query
    rw [lower, lower, count_final, count_final, same, finalSigmas_medial] at fewer
    omega

end EmberAssist.Text

namespace EmberAssist.Completion

/-- Whatever is typed without a capital sigma keeps all names that have it letter by letter as it is typed.
What is typed with one does not: some name that has it letter by letter is not kept. -/
theorem mem_rank_of_sublist_iff (query : String) :
    (∀ {α : Type} (key : α → String) (items : List α), ∀ item ∈ items,
      query.toList.Sublist (key item).toList → item ∈ rank key query items) ↔ 'Σ' ∉ query.toList := by
  constructor
  · intro kept sigma
    obtain ⟨name, part, lost⟩ := Text.exists_text_beyond sigma
    have member := kept String.ofList [name] name List.mem_cons_self (by simpa using part)
    have typed : query ≠ "" := by
      rintro rfl
      simp at sigma
    rw [rank_eq_mergeSort _ typed, List.mem_mergeSort, List.mem_filter] at member
    simp [Fits, lost] at member
  · intro free α key items item member part
    by_cases typed : query = ""
    · simpa [rank, typed] using member
    · rw [rank_eq_mergeSort key typed, List.mem_mergeSort, List.mem_filter]
      exact ⟨member, decide_eq_true (Text.lowerAfter_sublist part free [] [])⟩

/-- A capital sigma that is typed alone is lost where it ends a word. -/
theorem rank_of_final_sigma :
    "Σ".toList.Sublist "AΣ".toList ∧ rank id "Σ" ["AΣ"] = [] := by
  have typed : Text.lower "Σ".toList = ['σ'] := Text.lowerAfter_sigma [] []
  have name : Text.lower "AΣ".toList = ['a', 'ς'] := by
    have final : Text.endsWord ['A'] [] = true := by
      rw [Text.endsWord, Text.meetsLetter_letter]
      rfl
    have behind := Text.lowerAfter_sigma ['A'] []
    rw [final] at behind
    exact (Text.lowerAfter_other (by decide) [] ['Σ']).trans (congrArg ('a' :: ·) behind)
  have lost : ¬ Fits "Σ" "AΣ" := by
    rw [Fits, typed, name]
    decide
  refine ⟨by decide, ?_⟩
  rw [rank_eq_mergeSort id (by decide)]
  simp [lost]

end EmberAssist.Completion
