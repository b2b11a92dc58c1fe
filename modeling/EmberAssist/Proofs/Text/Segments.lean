import EmberAssist.Proofs.PathName
import EmberAssist.Proofs.Text

/-! Texts that go on without a separator. Whatever ends with the separator is found in them where it is found in
what goes before, and of the pieces between separators only the last one gets longer. -/
namespace EmberAssist.Text

variable {separator : Char} {word replacement front back text : List Char}

theorem prefix_append_iff (free : separator ∉ back) :
    word ++ [separator] <+: front ++ back ↔ word ++ [separator] <+: front := by
  induction front generalizing word with
  | nil =>
    have absent : ¬ word ++ [separator] <+: back := fun found => free (found.subset (by simp))
    simp [absent]
  | cons c front ih =>
    cases word with
    | nil => simp [List.cons_prefix_cons]
    | cons d word =>
      simp only [List.cons_append, List.cons_prefix_cons]
      exact and_congr_right fun _ => ih

theorem startsWith_append (free : separator ∉ back) :
    startsWith (front ++ back) (word ++ [separator]) = startsWith front (word ++ [separator]) := by
  rw [Bool.eq_iff_iff, startsWith_iff, startsWith_iff]
  exact prefix_append_iff free

theorem find?_of_free (free : separator ∉ text) : find? (word ++ [separator]) text = none := by
  have absent : ¬ word ++ [separator] <:+: text := fun found => free (found.subset (by simp))
  rw [← occursIn_iff, occursIn] at absent
  simpa using absent

theorem find?_append_free (free : separator ∉ back) :
    find? (word ++ [separator]) (front ++ back) = find? (word ++ [separator]) front := by
  induction front with
  | nil => rw [List.nil_append, find?_of_free free, find?_of_free List.not_mem_nil]
  | cons c front ih =>
    have here : startsWith (c :: front ++ back) (word ++ [separator]) =
        startsWith (c :: front) (word ++ [separator]) := startsWith_append free
    rw [List.cons_append] at here ⊢
    rw [find?, find?, here, ih]

theorem occursIn_append_free (free : separator ∉ back) :
    occursIn (word ++ [separator]) (front ++ back) = occursIn (word ++ [separator]) front := by
  rw [occursIn, occursIn, find?_append_free free]

theorem replaceAfter_free (free : separator ∉ text) :
    replaceAfter (word ++ [separator]) replacement 0 text = text := by
  induction text with
  | nil => rfl
  | cons c text ih =>
    have absent : startsWith ([] ++ c :: text) (word ++ [separator]) =
        startsWith [] (word ++ [separator]) := startsWith_append free
    have none : startsWith [] (word ++ [separator]) = false := by cases word <;> rfl
    rw [List.nil_append, none] at absent
    rw [replaceAfter, absent, ih fun member => free (List.mem_cons_of_mem _ member)]
    rfl

theorem replaceAfter_append_free (free : separator ∉ back) {skip : Nat} (inside : skip ≤ front.length) :
    replaceAfter (word ++ [separator]) replacement skip (front ++ back) =
      replaceAfter (word ++ [separator]) replacement skip front ++ back := by
  induction front generalizing skip with
  | nil =>
    obtain rfl := Nat.le_zero.mp inside
    exact replaceAfter_free free
  | cons c front ih =>
    cases skip with
    | succ skip => exact ih (Nat.le_of_succ_le_succ inside)
    | zero =>
      have here : startsWith (c :: front ++ back) (word ++ [separator]) =
          startsWith (c :: front) (word ++ [separator]) := startsWith_append free
      rw [List.cons_append] at here ⊢
      rw [replaceAfter, replaceAfter, here]
      split
      · rename_i found
        have within := (startsWith_iff.mp found).length_le
        rw [ih (by simp at within ⊢; omega), List.append_assoc]
      · rw [ih (Nat.zero_le _), List.cons_append]

/-- Nothing is replaced behind the last separator. -/
theorem replace_append_free (free : separator ∉ back) (front : List Char) :
    replace (word ++ [separator]) replacement (front ++ back) =
      replace (word ++ [separator]) replacement front ++ back := by
  have filled : (word ++ [separator]).isEmpty = false := by cases word <;> rfl
  simp only [replace, filled, Bool.false_eq_true, if_false]
  exact replaceAfter_append_free free (Nat.zero_le _)

/-- Of the pieces of a text only the last one changes with what stands behind the last separator. -/
theorem exists_splitOn (separator : Char) (front : List Char) : ∃ pieces last,
    ∀ back, separator ∉ back → splitOn separator (front ++ back) = pieces ++ [last ++ back] := by
  obtain whole | ⟨before, last, rfl, whole⟩ := FilePath.cut_at_last separator front
  · refine ⟨[], front, fun back free => ?_⟩
    have single : separator ∉ front ++ back := by simp [whole, free]
    rw [splitOn_of_notMem single, List.nil_append]
  · refine ⟨splitOn separator before, last, fun back free => ?_⟩
    have single : separator ∉ last ++ back := by simp [whole, free]
    rw [List.append_assoc, List.cons_append, splitOn_append, splitOn_of_notMem single]

theorem length_splitOn (separator : Char) (text : List Char) :
    (splitOn separator text).length = text.count separator + 1 := by
  induction text with
  | nil => rfl
  | cons c text ih =>
    obtain ⟨piece, pieces, cut⟩ := List.exists_cons_of_ne_nil (splitOn_ne_nil separator text)
    rw [splitOn, List.count_cons, ← Nat.add_right_comm, ← ih, cut]
    split <;> rfl

end EmberAssist.Text
