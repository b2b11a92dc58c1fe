import EmberAssist.Text.Blank
import EmberAssist.Text.Lowercase
import EmberAssist.Text.Search
import EmberAssist.Text.Slice
import Mathlib.Data.List.TakeWhile

/-! Texts that are cut at an index or at a character and put together again, what they begin with, where
something first occurs in them, and their lower case. -/
namespace EmberAssist.Text

theorem item?_natCast {α : Type} (items : List α) (index : Nat) :
    item? items (index : Int) = items[index]? := by
  rw [item?, if_pos (by omega), Int.toNat_natCast]

theorem cutPoint_natCast (length index : Nat) : cutPoint length index = min index length := by
  rw [cutPoint, if_neg (by omega), Int.toNat_natCast]

variable {separator : Char} {pattern text front back piece rest : List Char}

/-- The pieces between the occurrences of a character make up the text again. -/
theorem join_splitOn (separator : Char) (text : List Char) :
    join [separator] (splitOn separator text) = text := by
  induction text with
  | nil => simp [splitOn, join]
  | cons c text ih =>
    obtain ⟨piece, pieces, split⟩ := List.exists_cons_of_ne_nil (splitOn_ne_nil separator text)
    rw [split] at ih
    by_cases same : c = separator
    · simp [splitOn, same, join, split, ih]
    · cases pieces <;> simp_all [splitOn, join]

theorem join_append_singleton {pieces : List (List Char)} (filled : pieces ≠ []) (last : List Char) :
    join [separator] (pieces ++ [last]) = join [separator] pieces ++ separator :: last := by
  induction pieces with
  | nil => exact absurd rfl filled
  | cons piece pieces ih =>
    cases pieces with
    | nil => simp [join]
    | cons next pieces =>
      have rest := ih (List.cons_ne_nil next pieces)
      simp only [List.cons_append, join] at rest ⊢
      rw [rest, List.append_assoc, List.append_assoc, List.append_assoc]

/-- A text that is cut at an occurrence of the character has the pieces of both sides. -/
theorem splitOn_append (front back : List Char) :
    splitOn separator (front ++ separator :: back) =
      splitOn separator front ++ splitOn separator back := by
  induction front with
  | nil => simp [splitOn]
  | cons c front ih =>
    obtain ⟨piece, pieces, cut⟩ := List.exists_cons_of_ne_nil (splitOn_ne_nil separator front)
    rw [List.cons_append, splitOn, splitOn, ih, cut]
    split <;> rfl

theorem splitOn_of_notMem (whole : separator ∉ text) : splitOn separator text = [text] := by
  induction text with
  | nil => rfl
  | cons c text ih =>
    simp only [List.mem_cons, not_or] at whole
    simp [splitOn, Ne.symm whole.1, ih whole.2]

theorem after?_eq_some_iff : after? pattern text = some rest ↔ text = pattern ++ rest := by
  induction pattern generalizing text with
  | nil => simp [after?]
  | cons a pattern ih =>
    cases text with
    | nil => simp [after?]
    | cons b text =>
      by_cases same : a = b
      · simp [after?, same, ih]
      · simp [after?, same, Ne.symm same]

theorem startsWith_iff : startsWith text pattern = true ↔ pattern <+: text :=
  List.isPrefixOf_iff_prefix

/-! ## Where something occurs -/

/-- The front of a text holds the beginning of an occurrence, which may reach over its end. -/
def BeginsIn (pattern front back : List Char) : Prop :=
  ∃ i < front.length, pattern <+: (front ++ back).drop i

instance : Decidable (BeginsIn pattern front back) :=
  inferInstanceAs (Decidable (∃ i < front.length, pattern <+: (front ++ back).drop i))

/-- A search passes over a front in which nothing that is searched for begins. -/
theorem find?_append (apart : ¬ BeginsIn pattern front back) :
    find? pattern (front ++ back) = (find? pattern back).map (· + front.length) := by
  induction front with
  | nil => simp
  | cons c front ih =>
    have absent : startsWith (c :: (front ++ back)) pattern = false := by
      rw [Bool.eq_false_iff]
      intro found
      exact apart ⟨0, Nat.zero_lt_succ _, startsWith_iff.mp found⟩
    have later : ¬ BeginsIn pattern front back := by
      rintro ⟨i, inside, found⟩
      exact apart ⟨i + 1, Nat.succ_lt_succ inside, found⟩
    rw [List.cons_append, find?, absent, ih later]
    simp [Option.map_map, Function.comp_def, Nat.add_assoc]

theorem occursIn_append (apart : ¬ BeginsIn pattern front back) :
    occursIn pattern (front ++ back) = occursIn pattern back := by
  rw [occursIn, occursIn, find?_append apart, Option.isSome_map]

theorem occursIn_iff : occursIn pattern text = true ↔ pattern <:+: text := by
  induction text with
  | nil => cases pattern <;> simp [occursIn, find?]
  | cons c text ih =>
    rw [List.infix_cons_iff, ← ih, ← startsWith_iff]
    unfold occursIn
    rw [find?]
    cases startsWith (c :: text) pattern <;> simp

theorem prefix_drop_of_find? {index : Nat} (found : find? pattern text = some index) :
    pattern <+: text.drop index := by
  induction text generalizing index with
  | nil =>
    simp only [find?, Option.ite_none_right_eq_some, List.isEmpty_iff] at found
    rw [found.1]
    exact List.nil_prefix
  | cons c text ih =>
    rw [find?] at found
    split at found
    · rename_i here
      obtain rfl := Option.some.inj found
      exact startsWith_iff.mp here
    · obtain ⟨later, behind, rfl⟩ := Option.map_eq_some_iff.mp found
      exact ih behind

/-- What is found ends inside the text. -/
theorem le_of_find? {index : Nat} (filled : pattern ≠ []) (found : find? pattern text = some index) :
    index + pattern.length ≤ text.length := by
  have within := (prefix_drop_of_find? found).length_le
  have long : 0 < pattern.length := List.length_pos_iff.mpr filled
  rw [List.length_drop] at within
  omega

/-- A word that ends at the first of two equal characters does not reach behind it. -/
theorem prefix_of_delimited {word : List Char} (whole : separator ∉ word)
    (found : word ++ [separator] <+: front ++ separator :: back) :
    word ++ [separator] <+: front ++ [separator] := by
  induction word generalizing front with
  | nil => cases front <;> simp_all [List.cons_prefix_cons]
  | cons c word ih =>
    simp only [List.mem_cons, not_or] at whole
    cases front with
    | nil =>
      rw [List.cons_append, List.nil_append, List.cons_prefix_cons] at found
      exact absurd found.1.symm whole.1
    | cons d front =>
      simp only [List.cons_append, List.cons_prefix_cons] at found ⊢
      exact ⟨found.1, ih whole.2 found.2⟩

/-! ## Ends that are trimmed -/

/-- The first character of a text is trimmed only if all that is behind it is. -/
theorem trimEnd_cons (p : Char → Bool) (c : Char) (chars : List Char) : trimEnd p (c :: chars) =
    if trimEnd p chars = [] ∧ p c = true then [] else c :: trimEnd p chars := by
  unfold trimEnd
  rw [List.reverse_cons, List.dropWhile_append]
  by_cases empty : List.dropWhile p chars.reverse = []
  · cases met : p c <;> simp [empty, met]
  · simp [empty]

theorem trimEnd_eq_nil_iff {p : Char → Bool} {chars : List Char} : trimEnd p chars = [] ↔ chars.all p = true := by
  rw [trimEnd, List.reverse_eq_nil_iff, List.dropWhile_eq_nil_iff, List.all_eq_true]
  simp only [List.mem_reverse]

/-! ## Lower case -/

theorem meetsLetter_cons (c : Char) (text : List Char) : meetsLetter (c :: text) =
    if skippedMarks.contains c then meetsLetter text else wordLetters.contains c := by
  rw [meetsLetter, meetsLetter, List.dropWhile_cons]
  cases skippedMarks.contains c <;> simp only [Bool.false_eq_true, if_true, if_false]

/-- What stands behind a slash does not matter to the words before it. -/
theorem meetsLetter_append (front back : List Char) :
    meetsLetter (front ++ '/' :: back) = meetsLetter front := by
  induction front with
  | nil =>
    have kept : skippedMarks.contains '/' = false := by
      rw [RangeTable.contains, ← Array.any_toList]
      decide +kernel
    have caseless : wordLetters.contains '/' = false := by
      rw [RangeTable.contains, ← Array.any_toList]
      decide +kernel
    rw [List.nil_append, meetsLetter_cons, kept, if_neg Bool.false_ne_true, caseless]
    rfl
  | cons c front ih => rw [List.cons_append, meetsLetter_cons, meetsLetter_cons, ih]

theorem lowerAfter_append_slash (before beyond text : List Char) :
    lowerAfter (before ++ '/' :: beyond) text = lowerAfter before text := by
  induction text generalizing before with
  | nil => rfl
  | cons c text ih => rw [lowerAfter, lowerAfter, meetsLetter_append, ← List.cons_append, ih]

/-- A slash is a slash in lower case, and no word reaches over it. -/
theorem lower_append (front back : List Char) :
    lower (front ++ '/' :: back) = lower front ++ '/' :: lower back := by
  have lowered (before : List Char) : lowerAfter before (front ++ '/' :: back) =
      lowerAfter before front ++ '/' :: lower back := by
    induction front generalizing before with
    | nil =>
      have slash : lowerChar '/' = '/' := by decide
      rw [List.nil_append, lowerAfter, lowerAfter, if_neg (by decide), if_neg (by decide), slash,
        ← List.nil_append ('/' :: before), lowerAfter_append_slash]
      rfl
    | cons c front ih =>
      rw [List.cons_append, lowerAfter, lowerAfter, meetsLetter_append, ih, List.append_assoc]
  exact lowered []

/-- Lower case of a character that does not depend on what is around it. -/
def lowerAlone (c : Char) : List Char :=
  if c == 'İ' then ['i', Char.ofNat 0x307] else [lowerChar c]

/-- Whether a capital sigma between two texts, the one before it read backwards, ends a word. -/
def endsWord (before after : List Char) : Bool := meetsLetter before && !meetsLetter after

theorem lowerAfter_sigma (before text : List Char) : lowerAfter before ('Σ' :: text) =
    (if endsWord before text then 'ς' else 'σ') :: lowerAfter ('Σ' :: before) text := by
  rw [lowerAfter, if_pos (beq_self_eq_true _), List.singleton_append, endsWord]

theorem lowerAfter_other {c : Char} (other : c ≠ 'Σ') (before text : List Char) :
    lowerAfter before (c :: text) = lowerAlone c ++ lowerAfter (c :: before) text := by
  rw [lowerAfter, if_neg (by simpa using other), lowerAlone]

theorem length_lowerAlone (c : Char) : (lowerAlone c).length = if c = 'İ' then 2 else 1 := by
  unfold lowerAlone
  by_cases dotted : c = 'İ' <;> simp [dotted]

/-- Only the dotted capital I gets longer in lower case. -/
theorem length_lower (text : List Char) : (lower text).length = text.length + text.count 'İ' := by
  have lowered (before : List Char) :
      (lowerAfter before text).length = text.length + text.count 'İ' := by
    induction text generalizing before with
    | nil => rfl
    | cons c text ih =>
      by_cases sigma : c = 'Σ'
      · subst sigma
        rw [lowerAfter_sigma, List.length_cons, List.length_cons, ih, List.count_cons_of_ne (by decide)]
        omega
      · rw [lowerAfter_other sigma, List.length_append, length_lowerAlone, ih, List.length_cons,
          List.count_cons]
        by_cases dotted : c = 'İ'
        · subst dotted
          simp
          omega
        · simp [dotted]
          omega
  exact lowered []

end EmberAssist.Text
