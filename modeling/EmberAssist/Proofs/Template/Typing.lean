import EmberAssist.Proofs.Template.Progress

/-! Typing into a token. Two texts that differ only in what was typed into one token are read in step:
an input of the one is carried to the input of the other that stands at the same place, as long as
that place is not inside the token. -/
namespace EmberAssist.Template

open Text

/-- Characters that stand alone in the grammar; no token in question begins with one of them. -/
def marks : List Char := ['(', ')', '{', '}', '~', '!', '/', '-', '<', '>', '=', '|', '.']

/-- A text of characters that stand alone in the grammar. -/
def Marked (pattern : List Char) : Prop := ∀ c ∈ pattern, c ∈ marks

instance (pattern : List Char) : Decidable (Marked pattern) :=
  decidable_of_iff (pattern.all marks.contains = true) (by simp [Marked])

/-- A character that begins the names in question. -/
def beginsName (c : Char) : Bool := c.isAlpha || c == '@'

/-- The two characters with which a token begins before and after typing: both begin names, or they
are the same quote or number sign. -/
inductive Alike : Char → Char → Prop where
  | name {a b : Char} (first : beginsName a = true) (second : beginsName b = true) : Alike a b
  | single {a : Char} (quote : a = '\'' ∨ a = '"') : Alike a a
  | hash : Alike '#' '#'

/-- A class takes both characters with which a token begins or neither. -/
def Agrees (p : Char → Bool) : Prop := ∀ a b, Alike a b → p a = p b

/-- A class takes no character with which a token begins. -/
def Refuses (p : Char → Bool) : Prop := ∀ a b, Alike a b → p a = false ∧ p b = false

theorem Refuses.agrees {p : Char → Bool} (refuses : Refuses p) : Agrees p := by
  intro a b alike
  rw [(refuses a b alike).1, (refuses a b alike).2]

section Classes

private theorem lt_of_beginsName {c : Char} (begins : beginsName c = true) : c.toNat < 128 := by
  simp only [beginsName, Bool.or_eq_true, beq_iff_eq] at begins
  rcases begins with letter | rfl
  · have cases : (decide (c.val ≥ 'A'.val ∧ c.val ≤ 'Z'.val) ||
        (decide (c.val ≥ 'a'.val) && decide (c.val ≤ 'z'.val))) = true := letter
    simp only [Bool.or_eq_true, Bool.and_eq_true, decide_eq_true_eq, UInt32.le_iff_toNat_le,
      ge_iff_le] at cases
    have value : c.toNat = c.val.toNat := rfl
    have upper : 'Z'.val.toNat = 90 := rfl
    have lower : 'z'.val.toNat = 122 := rfl
    omega
  · decide

/-- Names begin with one of the first characters there are, so that all of them can be looked at. -/
private theorem exists_of_beginsName {c : Char} (begins : beginsName c = true) :
    ∃ n : Fin 128, c = Char.ofNat n :=
  ⟨⟨c.toNat, lt_of_beginsName begins⟩, (Char.ofNat_toNat c).symm⟩

/-- The classes that have nothing of what begins a name, and those that have all of it. -/
private theorem classes_of_beginsName {c : Char} (begins : beginsName c = true) :
    (∀ p ∈ [isBlank, isDecimalDigit, Input.endsNumber, Input.endsElse], p c = false) ∧
    (∀ p ∈ [Input.isPathChar, Input.isAttributeNameChar, Input.isBareValueChar, Input.isTagNameChar,
      Input.beginsTagName, Input.isCloseNameChar], p c = true) ∧
    ∀ mark ∈ '#' :: '\'' :: '"' :: marks, (c == mark) = false := by
  obtain ⟨n, rfl⟩ := exists_of_beginsName begins
  have all : ∀ n : Fin 128, beginsName (Char.ofNat n) = true →
      ([isBlank, isDecimalDigit, Input.endsNumber, Input.endsElse].all (!· (Char.ofNat n)) &&
        [Input.isPathChar, Input.isAttributeNameChar, Input.isBareValueChar, Input.isTagNameChar,
          Input.beginsTagName, Input.isCloseNameChar].all (· (Char.ofNat n)) &&
        ('#' :: '\'' :: '"' :: marks).all (Char.ofNat n != ·)) = true := by
    decide +kernel
  simpa [and_assoc] using all n begins

private theorem refuses_of {p : Char → Bool} (names : ∀ c, beginsName c = true → p c = false)
    (quote : p '\'' = false) (double : p '"' = false) (hash : p '#' = false) : Refuses p := by
  rintro a b (⟨first, second⟩ | (rfl | rfl) | _)
  · exact ⟨names a first, names b second⟩
  · exact ⟨quote, quote⟩
  · exact ⟨double, double⟩
  · exact ⟨hash, hash⟩

private theorem agrees_of {p : Char → Bool} (value : Bool)
    (names : ∀ c, beginsName c = true → p c = value) : Agrees p := by
  rintro a b (⟨first, second⟩ | _ | _)
  · rw [names a first, names b second]
  · rfl
  · rfl

theorem refuses_blank : Refuses isBlank :=
  refuses_of (fun _ begins => (classes_of_beginsName begins).1 _ (by simp)) (by decide) (by decide)
    (by decide)

theorem refuses_digit : Refuses isDecimalDigit :=
  refuses_of (fun _ begins => (classes_of_beginsName begins).1 _ (by simp)) (by decide) (by decide)
    (by decide)

theorem refuses_endsNumber : Refuses Input.endsNumber :=
  refuses_of (fun _ begins => (classes_of_beginsName begins).1 _ (by simp)) (by decide) (by decide)
    (by decide)

theorem refuses_endsElse : Refuses Input.endsElse :=
  refuses_of (fun _ begins => (classes_of_beginsName begins).1 _ (by simp)) (by decide) (by decide)
    (by decide)

theorem refuses_mark {c : Char} (marked : c ∈ marks) : Refuses (· == c) := by
  have others : ∀ c ∈ marks, '\'' ≠ c ∧ '"' ≠ c ∧ '#' ≠ c := by simp [marks]
  obtain ⟨quote, double, hash⟩ := others c marked
  exact refuses_of (fun _ begins => (classes_of_beginsName begins).2.2 c (by simp [marked]))
    (beq_false_of_ne quote) (beq_false_of_ne double) (beq_false_of_ne hash)

private theorem agrees_class {p : Char → Bool}
    (listed : p ∈ [Input.isPathChar, Input.isAttributeNameChar, Input.isBareValueChar,
      Input.isTagNameChar, Input.beginsTagName, Input.isCloseNameChar]) : Agrees p :=
  agrees_of true fun _ begins => (classes_of_beginsName begins).2.1 p listed

theorem agrees_path : Agrees Input.isPathChar := agrees_class (by simp)

theorem agrees_attributeName : Agrees Input.isAttributeNameChar := agrees_class (by simp)

theorem agrees_bareValue : Agrees Input.isBareValueChar := agrees_class (by simp)

theorem agrees_tagName : Agrees Input.isTagNameChar := agrees_class (by simp)

theorem agrees_beginsTagName : Agrees Input.beginsTagName := agrees_class (by simp)

theorem agrees_closeName : Agrees Input.isCloseNameChar := agrees_class (by simp)

private theorem agrees_equal {mark : Char} (listed : mark ∈ '#' :: '\'' :: '"' :: marks) :
    Agrees (· == mark) :=
  agrees_of false fun _ begins => (classes_of_beginsName begins).2.2 mark listed

theorem agrees_bar : Agrees (· != '|') := by
  intro a b alike
  have equal : Agrees (· == '|') := agrees_equal (by simp [marks])
  simp only [bne, equal a b alike]

theorem agrees_hash : Agrees (· == '#') := agrees_equal (by simp)

theorem agrees_quote {quote : Char} (quoted : quote = '\'' ∨ quote = '"') :
    Agrees (· == quote) := by
  rcases quoted with rfl | rfl
  · exact agrees_equal (by simp)
  · exact agrees_equal (by simp)

end Classes

/-! ## Typing -/

/-- A text in which something is typed: what stands before a token, the token's two parts on either
side of the cursor, what is typed between them, and what stands behind the token. -/
structure Typing where
  before : List Char
  left : List Char
  typed : List Char
  right : List Char
  after : List Char

namespace Typing

/-- The token before anything is typed. -/
def token (t : Typing) : List Char := t.left ++ t.right

/-- The token with what was typed. -/
def retyped (t : Typing) : List Char := t.left ++ t.typed ++ t.right

/-- The text before anything is typed. -/
def text (t : Typing) : List Char := t.before ++ (t.token ++ t.after)

/-- The text with what was typed. -/
def patched (t : Typing) : List Char := t.before ++ (t.retyped ++ t.after)

/-- Where the token begins. -/
def start (t : Typing) : Nat := t.before.length

/-- Where the token ends before anything is typed. -/
def stop (t : Typing) : Nat := t.before.length + t.token.length

/-- An input of the text and the input of the patched text at the same place, before the token or
behind it. -/
inductive Carried (t : Typing) : Input → Input → Prop where
  | ahead {offset : Nat} {gap : List Char} (before : gap <:+ t.before)
      (reach : offset + gap.length = t.start) :
      Carried t ⟨offset, gap ++ (t.token ++ t.after)⟩ ⟨offset, gap ++ (t.retyped ++ t.after)⟩
  | behind {offset : Nat} {rest : List Char} (past : t.stop ≤ offset) :
      Carried t ⟨offset, rest⟩ ⟨offset + t.typed.length, rest⟩

/-- What is read from one input to another is not the token. -/
def Clear (t : Typing) (input behind : Input) : Prop :=
  behind.offset ≤ t.start ∨ t.stop ≤ input.offset

/-- Typing that only the token takes part in. The token begins alike before and after; if it begins
like a name, no name ends before it; what was typed could stand in a name; and what now stands at the
place of the token is neither an else, nor block parameters, nor the name of an argument. -/
structure Quiet (t : Typing) : Prop where
  alike : ∃ a b rest others, t.token = a :: rest ∧ t.retyped = b :: others ∧ Alike a b
  typed : ∃ c rest, t.typed = c :: rest
  plain : ∀ c ∈ t.typed, Input.isPathChar c = true
  lone : ∀ c ∈ t.before.getLast?, Input.isPathChar c = true →
    ∀ d ∈ t.retyped.head?, Input.isPathChar d = false
  noElse : ∀ word, Input.eat? ['e', 'l', 's', 'e'] ⟨t.start, t.retyped ++ t.after⟩ = some word →
    word.rest.head?.any Input.endsElse = false
  bare : Input.seesBlockParams ⟨t.start, t.token ++ t.after⟩ = false
  stillBare : Input.seesBlockParams ⟨t.start, t.retyped ++ t.after⟩ = false
  unnamed : Input.argumentName? ⟨t.start, t.retyped ++ t.after⟩ = none

variable {t : Typing} {input moved behind closed : Input} {p : Char → Bool}
variable {pattern chars : List Char}

theorem stop_eq : t.stop = t.start + t.token.length := rfl

theorem length_retyped : t.retyped.length = t.token.length + t.typed.length := by
  simp only [retyped, token, List.length_append]
  omega

theorem Quiet.start_lt_stop (quiet : t.Quiet) : t.start < t.stop := by
  obtain ⟨a, b, rest, others, token, -, -⟩ := quiet.alike
  simp [start, stop, token]

/-! ## Inputs at the same place -/

namespace Carried

theorem ofText (t : Typing) : t.Carried (.ofText t.text) (.ofText t.patched) :=
  .ahead (List.suffix_refl _) (Nat.zero_add _)

theorem le_start_or (carried : t.Carried input moved) :
    input.offset ≤ t.start ∧ moved.offset = input.offset ∨
      t.stop ≤ input.offset ∧ moved.offset = input.offset + t.typed.length := by
  cases carried with
  | ahead before reach => exact .inl ⟨by simp only; omega, rfl⟩
  | behind past => exact .inr ⟨past, rfl⟩

/-- What is read without the token is read of the patched text as well. -/
theorem split (quiet : t.Quiet) (carried : t.Carried input moved) (order : input ≤ behind)
    (clear : t.Clear input behind) : ∃ read reached, t.Carried behind reached ∧
      input.rest = read ++ behind.rest ∧ moved.rest = read ++ reached.rest ∧
      behind.offset = input.offset + read.length ∧ reached.offset = moved.offset + read.length := by
  have nonempty := quiet.start_lt_stop
  obtain ⟨read, rest, offset⟩ := order
  obtain ⟨place, left⟩ := behind
  cases carried with
  | @ahead start gap before reach =>
    simp only [Clear] at rest offset clear
    obtain ⟨further, rfl, same⟩ : ∃ further, gap = read ++ further ∧
        left = further ++ (t.token ++ t.after) := by
      rcases List.append_eq_append_iff.mp rest with ⟨excess, longer, same⟩ | ⟨further, shorter, same⟩
      · have lengths := congrArg List.length longer
        rw [List.length_append] at lengths
        obtain rfl : excess = [] := List.eq_nil_of_length_eq_zero (by omega)
        exact ⟨[], by simpa using longer.symm, by simpa using same.symm⟩
      · exact ⟨further, shorter, same⟩
    subst same offset
    rw [List.length_append] at reach
    exact ⟨read, _, .ahead ((List.suffix_append _ _).trans before) (by omega), rest,
      List.append_assoc .., rfl, rfl⟩
  | @behind start rest past =>
    simp only at rest offset
    subst rest offset
    refine ⟨read, ⟨start + read.length + t.typed.length, left⟩, .behind ?_, rfl, rfl, rfl, ?_⟩
    · omega
    · simp only
      omega

/-- From one character to the next both places stay in step, unless the token begins here. -/
theorem step {offset : Nat} {c : Char} {rest : List Char}
    (carried : t.Carried ⟨offset, c :: rest⟩ moved) (elsewhere : offset ≠ t.start) :
    ∃ later, moved.rest = c :: later ∧ t.Carried ⟨offset + 1, rest⟩ ⟨moved.offset + 1, later⟩ := by
  generalize same : (⟨offset, c :: rest⟩ : Input) = input at carried
  cases carried with
  | @ahead place gap before reach =>
    cases gap with
    | nil =>
      obtain ⟨rfl, -⟩ := Input.mk.inj same
      exact absurd reach elsewhere
    | cons d gap =>
      cases same
      simp only [List.length_cons] at reach
      exact ⟨_, rfl, .ahead ((List.suffix_cons _ gap).trans before) (by omega)⟩
  | @behind place left past =>
    cases same
    refine ⟨rest, rfl, ?_⟩
    rw [Nat.add_right_comm]
    exact .behind (by omega)

/-- The next characters at the same place are the same, or the token begins with them. -/
theorem head (quiet : t.Quiet) (carried : t.Carried input moved) (agrees : Agrees p) :
    input.rest.head?.map p = moved.rest.head?.map p := by
  obtain ⟨a, b, rest, others, token, retyped, alike⟩ := quiet.alike
  cases carried with
  | @ahead start gap before reach =>
    cases gap with
    | nil => simp [token, retyped, agrees a b alike]
    | cons c gap => rfl
  | behind past => rfl

end Carried

end Typing

end EmberAssist.Template
