import EmberAssist.Proofs.Text

/-! Words in any letter case. A word of plain letters is found in the lower case of a text where the text spells
it, but the places are counted in the lower case: each dotted capital I before them makes them one larger. -/
namespace EmberAssist.Text

variable {word text above before : List Char} {c d : Char}

/-- A text begins with a word in any letter case. The word itself is in lower case. -/
def Spells (word text : List Char) : Prop := (text.take word.length).map Char.toLower = word

instance : Decidable (Spells word text) :=
  inferInstanceAs (Decidable ((text.take word.length).map Char.toLower = word))

/-- An ASCII character that is the lower case of nothing beyond ASCII. -/
def IsPlain (d : Char) : Prop := 0 < d.toNat ∧ d.toNat < 0x80 ∧ d ≠ 'i' ∧ d ≠ 'k'

instance : Decidable (IsPlain d) :=
  inferInstanceAs (Decidable (0 < d.toNat ∧ d.toNat < 0x80 ∧ d ≠ 'i' ∧ d ≠ 'k'))

/-! ## One letter -/

/-- Of all capitals beyond ASCII only the Kelvin sign has a small letter in ASCII. -/
theorem shift_of_capitalRuns : ∀ run ∈ capitalRuns.toList,
    0x80 ≤ (run.first : Int) + run.shift ∨ run = ⟨0x212A, 0x212A, 1, -8383⟩ := by
  decide +kernel

theorem toNat_ofNat_or (n : Nat) : (Char.ofNat n).toNat = n ∨ (Char.ofNat n).toNat = 0 := by
  by_cases valid : n.isValidChar
  · exact .inl (congrArg Char.toNat (dif_pos valid))
  · exact .inr (congrArg Char.toNat (dif_neg valid))

theorem toLower_of_not_ascii (foreign : ¬ c.toNat < 0x80) : c.toLower = c := by
  apply dif_neg
  rintro ⟨-, capital⟩
  have last : c.toNat ≤ 90 := UInt32.le_iff_toNat_le.mp capital
  omega

/-- Plain letters are put into lower case as in ASCII, and nothing else becomes one. -/
theorem lowerChar_eq_iff (plain : IsPlain d) : lowerChar c = d ↔ c.toLower = d := by
  obtain ⟨filled, ascii, -, kelvin⟩ := plain
  unfold lowerChar
  split
  · rfl
  · rename_i foreign
    rw [toLower_of_not_ascii foreign]
    split
    · rename_i run found
      have inside := Array.find?_some found
      have member := Array.mem_of_find?_eq_some found
      simp only [Bool.and_eq_true, decide_eq_true_eq] at inside
      constructor
      · intro same
        rcases shift_of_capitalRuns run (by simpa using member) with beyond | rfl
        · rw [← same] at filled ascii
          rcases toNat_ofNat_or (c.toNat + run.shift).toNat with value | value <;> omega
        · have single : c.toNat = 0x212A := by
            have bounds := inside.1
            simp only at bounds
            omega
          rw [single] at same
          exact absurd same.symm kelvin
      · rintro rfl
        exact absurd ascii foreign
    · exact Iff.rfl

theorem toLower_eq_slash : c.toLower = '/' ↔ c = '/' := by
  constructor
  · intro same
    by_cases capital : 'A'.val ≤ c.val ∧ c.val ≤ 'Z'.val
    · have first : 65 ≤ c.toNat := UInt32.le_iff_toNat_le.mp capital.1
      have last : c.toNat ≤ 90 := UInt32.le_iff_toNat_le.mp capital.2
      have shifted : (c.toNat + 32) % 2 ^ 32 = 47 := congrArg Char.toNat ((dif_pos capital).symm.trans same)
      omega
    · exact (dif_neg capital).symm.trans same
  · rintro rfl
    rfl

/-! ## Words -/

theorem exists_lowerAlone (c : Char) : ∃ first rest, lowerAlone c = first :: rest ∧
    (∀ d, IsPlain d → (first = d ↔ c.toLower = d)) ∧ (∀ d ∈ rest, ¬ IsPlain d) ∧
    rest.length = if c = 'İ' then 1 else 0 := by
  by_cases dotted : c = 'İ'
  · subst dotted
    refine ⟨'i', [Char.ofNat 0x307], rfl, ?_, by simp [IsPlain], rfl⟩
    intro d plain
    constructor
    · rintro rfl
      exact absurd rfl plain.2.2.1
    · rintro rfl
      exact absurd plain.2.1 (by decide)
  · refine ⟨lowerChar c, [], ?_, fun d plain => lowerChar_eq_iff plain, by simp, by simp [dotted]⟩
    rw [lowerAlone, if_neg (by simpa using dotted)]

/-- Lower case goes letter by letter. What a letter becomes depends on what is around it, but whether it becomes
a plain letter does not. -/
theorem exists_lowerAfter_cons (c : Char) (before text : List Char) :
    ∃ first rest, lowerAfter before (c :: text) = first :: (rest ++ lowerAfter (c :: before) text) ∧
      (∀ d, IsPlain d → (first = d ↔ c.toLower = d)) ∧ (∀ d ∈ rest, ¬ IsPlain d) ∧
      rest.length = if c = 'İ' then 1 else 0 := by
  by_cases sigma : c = 'Σ'
  · subst sigma
    refine ⟨if endsWord before text then 'ς' else 'σ', [], lowerAfter_sigma before text, ?_, by simp, rfl⟩
    intro d plain
    have ascii := plain.2.1
    constructor
    · rintro rfl
      split at ascii <;> exact absurd ascii (by decide)
    · rintro rfl
      exact absurd ascii (by decide)
  · obtain ⟨first, rest, alone, letter, foreign, length⟩ := exists_lowerAlone c
    refine ⟨first, rest, ?_, letter, foreign, length⟩
    rw [lowerAfter_other sigma, alone, List.cons_append]

theorem spells_cons (d c : Char) (word text : List Char) :
    Spells (d :: word) (c :: text) ↔ c.toLower = d ∧ Spells word text := by
  simp [Spells]

theorem prefix_lowerAfter_iff (plain : ∀ d ∈ word, IsPlain d) (before : List Char) :
    word <+: lowerAfter before text ↔ Spells word text := by
  induction word generalizing before text with
  | nil => simp [Spells]
  | cons d word ih =>
    obtain ⟨plainFirst, plain⟩ := List.forall_mem_cons.mp plain
    cases text with
    | nil => simp [lowerAfter, Spells]
    | cons c text =>
      obtain ⟨first, rest, lowered, same, -, length⟩ := exists_lowerAfter_cons c before text
      rw [lowered, List.cons_prefix_cons, spells_cons, eq_comm, same d plainFirst]
      apply and_congr_right
      intro letter
      have alone : rest = [] := by
        rw [← List.length_eq_zero_iff, length]
        apply if_neg
        rintro rfl
        rw [← letter] at plainFirst
        exact absurd plainFirst (by decide)
      rw [alone, List.nil_append]
      exact ih plain _

/-! ## Where a text spells a word first -/

/-- A search in lower case passes over a letter at which the text does not spell the word. -/
theorem find?_lowerAfter_cons (plain : ∀ d ∈ word, IsPlain d) (filled : word ≠ [])
    (absent : ¬ Spells word (c :: text)) (before : List Char) :
    find? word (lowerAfter before (c :: text)) =
      (find? word (lowerAfter (c :: before) text)).map (· + if c = 'İ' then 2 else 1) := by
  have here : ¬ word <+: lowerAfter before (c :: text) := mt (prefix_lowerAfter_iff plain before).mp absent
  obtain ⟨first, rest, lowered, -, foreign, length⟩ := exists_lowerAfter_cons c before text
  rw [lowered] at here ⊢
  have apart : ¬ BeginsIn word (first :: rest) (lowerAfter (c :: before) text) := by
    rintro ⟨i, inside, found⟩
    cases i with
    | zero => exact here found
    | succ i =>
      obtain ⟨d, word, rfl⟩ := List.exists_cons_of_ne_nil filled
      have within : i < rest.length := Nat.lt_of_succ_lt_succ inside
      have mark : d = rest[i] := by
        rw [List.cons_append, List.drop_succ_cons, List.drop_append_of_le_length (Nat.le_of_lt within),
          List.drop_eq_getElem_cons within, List.cons_append] at found
        exact (List.cons_prefix_cons.mp found).1
      exact foreign d (mark ▸ List.getElem_mem within) (plain d List.mem_cons_self)
  have passed := find?_append apart
  rw [List.cons_append, List.length_cons, length] at passed
  rw [passed]
  split <;> rfl

theorem find?_eq_zero (found : word <+: text) : find? word text = some 0 := by
  cases text with
  | nil =>
    obtain rfl := List.prefix_nil.mp found
    rfl
  | cons c text => rw [find?, if_pos (startsWith_iff.mpr found)]

/-- A text spells a word first behind what is above it. -/
structure FirstSpelled (word above text : List Char) : Prop where
  here : Spells word text
  first : ∀ i < above.length, ¬ Spells word ((above ++ text).drop i)

theorem FirstSpelled.find?_lowerAfter (spelled : FirstSpelled word above text)
    (plain : ∀ d ∈ word, IsPlain d) (filled : word ≠ []) (before : List Char) :
    find? word (lowerAfter before (above ++ text)) = some (above.length + above.count 'İ') := by
  induction above generalizing before with
  | nil => exact find?_eq_zero ((prefix_lowerAfter_iff plain before).mpr spelled.here)
  | cons c above ih =>
    have absent : ¬ Spells word (c :: (above ++ text)) := spelled.first 0 (Nat.zero_lt_succ _)
    have later : FirstSpelled word above text :=
      ⟨spelled.here, fun i inside => spelled.first (i + 1) (Nat.succ_lt_succ inside)⟩
    rw [List.cons_append, find?_lowerAfter_cons plain filled absent, ih later, List.length_cons,
      List.count_cons, Option.map_some]
    by_cases dotted : c = 'İ'
    · simp only [dotted, beq_self_eq_true, if_true, Option.some.injEq]
      omega
    · simp only [dotted, beq_iff_eq, if_false, Option.some.injEq]
      omega

theorem find?_lowerAfter_eq_none (absent : ∀ i, ¬ Spells word (text.drop i))
    (plain : ∀ d ∈ word, IsPlain d) (filled : word ≠ []) (before : List Char) :
    find? word (lowerAfter before text) = none := by
  induction text generalizing before with
  | nil => simpa [lowerAfter, find?] using filled
  | cons c text ih =>
    rw [find?_lowerAfter_cons plain filled (absent 0), ih fun i => absent (i + 1)]
    rfl

/-- A text spells a word nowhere, or else there is a first place at which it does. -/
theorem exists_firstSpelled (filled : word ≠ []) (text : List Char) :
    (∀ i, ¬ Spells word (text.drop i)) ∨ ∃ above rest, text = above ++ rest ∧ FirstSpelled word above rest := by
  induction text with
  | nil =>
    left
    intro i
    simpa [Spells] using filled.symm
  | cons c text ih =>
    by_cases here : Spells word (c :: text)
    · exact .inr ⟨[], c :: text, rfl, here, nofun⟩
    · rcases ih with absent | ⟨above, rest, rfl, spelled⟩
      · left
        intro i
        cases i with
        | zero => exact here
        | succ i => exact absent i
      · right
        refine ⟨c :: above, rest, rfl, spelled.here, ?_⟩
        intro i inside
        cases i with
        | zero => exact here
        | succ i => exact spelled.first i (Nat.lt_of_succ_lt_succ inside)

/-- The lower case of a text has a word where the text spells it. -/
theorem occursIn_lowerAfter_iff (plain : ∀ d ∈ word, IsPlain d) (filled : word ≠ []) (before : List Char) :
    occursIn word (lowerAfter before text) = true ↔ ∃ i, Spells word (text.drop i) := by
  rcases exists_firstSpelled filled text with absent | ⟨above, rest, rfl, spelled⟩
  · rw [occursIn, find?_lowerAfter_eq_none absent plain filled]
    simpa using absent
  · rw [occursIn, spelled.find?_lowerAfter plain filled]
    exact iff_of_true rfl ⟨above.length, by simpa using spelled.here⟩

/-- No letter becomes a slash in lower case. -/
theorem notMem_lowerAfter (free : '/' ∉ text) (before : List Char) : '/' ∉ lowerAfter before text := by
  have plain : IsPlain '/' := by decide
  induction text generalizing before with
  | nil => exact List.not_mem_nil
  | cons c text ih =>
    simp only [List.mem_cons, not_or] at free
    obtain ⟨first, rest, lowered, same, foreign, -⟩ := exists_lowerAfter_cons c before text
    rw [lowered]
    simp only [List.mem_cons, List.mem_append, not_or]
    refine ⟨?_, fun member => foreign '/' member plain, ih free.2 _⟩
    intro slash
    exact free.1 (toLower_eq_slash.mp ((same '/' plain).mp slash.symm)).symm

end EmberAssist.Text
