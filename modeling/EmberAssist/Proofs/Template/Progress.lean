import Mathlib.Order.Basic
import EmberAssist.Template.Parser

/-! Reading goes forward: whatever reads a lexeme leaves an input that follows the one it was given in
the same text. -/
namespace EmberAssist.Template

open Text

namespace Input
variable {input opened behind closed : Input} {pattern chars : List Char} {p : Char → Bool}

/-- An input follows another if some characters stand between them. -/
instance : LE Input :=
  ⟨fun input behind =>
    ∃ read, input.rest = read ++ behind.rest ∧ behind.offset = input.offset + read.length⟩

theorem le_iff : input ≤ behind ↔
    ∃ read, input.rest = read ++ behind.rest ∧ behind.offset = input.offset + read.length := Iff.rfl

instance : Preorder Input where
  le_refl input := ⟨[], by simp⟩
  le_trans input middle behind first second := by
    obtain ⟨read, rest, offset⟩ := first
    obtain ⟨more, later, further⟩ := second
    refine ⟨read ++ more, ?_, ?_⟩
    · rw [rest, later, List.append_assoc]
    · rw [further, offset, List.length_append, Nat.add_assoc]

theorem offset_le (order : input ≤ behind) : input.offset ≤ behind.offset := by
  obtain ⟨read, -, offset⟩ := order
  omega

/-- A given text is read exactly where it comes next. -/
theorem eat?_eq_some : input.eat? pattern = some behind ↔
    input.rest = pattern ++ behind.rest ∧ behind.offset = input.offset + pattern.length := by
  induction pattern generalizing input with
  | nil =>
    obtain ⟨offset, rest⟩ := input
    obtain ⟨later, behind⟩ := behind
    simp [eat?, eq_comm, and_comm]
  | cons a pattern ih =>
    obtain ⟨offset, rest⟩ := input
    cases rest with
    | nil => simp [eat?]
    | cons c rest =>
      by_cases same : a = c
      · subst same
        simp only [eat?, ↓reduceIte, ih, List.cons_append, List.cons.injEq, true_and,
          List.length_cons]
        refine and_congr_right fun _ => ?_
        omega
      · have differ : ¬ c = a := fun h => same h.symm
        simp [eat?, same, differ]

/-- An input is properly behind another if some characters have been read in between. -/
theorem lt_iff : input < behind ↔ input ≤ behind ∧ input.offset < behind.offset := by
  rw [lt_iff_le_not_ge]
  refine and_congr_right fun order => ⟨fun forward => ?_, fun less back => ?_⟩
  · obtain ⟨read, rest, offset⟩ := order
    cases read with
    | nil => exact absurd ⟨[], rest.symm, offset.symm⟩ forward
    | cons c read =>
      rw [offset, List.length_cons]
      omega
  · have := offset_le back
    omega

private theorem lt_of_read {c : Char} (rest : input.rest = c :: chars ++ behind.rest)
    (offset : behind.offset = input.offset + (c :: chars).length) : input < behind := by
  refine lt_iff.mpr ⟨⟨c :: chars, rest, offset⟩, ?_⟩
  rw [offset, List.length_cons]
  omega

theorem lt_of_eat? {c : Char} (read : input.eat? (c :: pattern) = some behind) : input < behind :=
  lt_of_read (eat?_eq_some.mp read).1 (eat?_eq_some.mp read).2

theorem le_of_eat? (read : input.eat? pattern = some behind) : input ≤ behind :=
  ⟨pattern, eat?_eq_some.mp read⟩

theorem le_skipOptional (pattern : List Char) (input : Input) :
    input ≤ input.skipOptional pattern := by
  unfold skipOptional
  cases read : input.eat? pattern with
  | none => exact le_refl _
  | some behind => exact le_of_eat? read

/-- A character that comes next is skipped. -/
theorem skipOptional_of_head {c : Char} {rest : List Char} (ahead : input.rest = c :: rest) :
    input.skipOptional [c] = ⟨input.offset + 1, rest⟩ := by
  obtain ⟨offset, chars⟩ := input
  cases ahead
  simp [skipOptional, eat?]

theorem lt_skipOptional_of_head {c : Char} {rest : List Char} (ahead : input.rest = c :: rest) :
    input < input.skipOptional [c] := by
  rw [skipOptional_of_head ahead]
  exact lt_iff.mpr ⟨⟨[c], ahead, rfl⟩, Nat.lt_succ_self _⟩

theorem le_takeWhile (p : Char → Bool) (input : Input) : input ≤ (input.takeWhile p).2 :=
  ⟨input.rest.takeWhile p, by simp [takeWhile], rfl⟩

theorem le_skipBlank (input : Input) : input ≤ input.skipBlank := le_takeWhile _ _

theorem le_skipTilde (input : Input) : input ≤ input.skipTilde :=
  (le_skipBlank input).trans (le_skipOptional _ _)

/-- A run of characters of a class goes up to the next character that is not of the class. -/
theorem takeWhile_eq : input.takeWhile p = (chars, behind) ↔
    input.rest = chars ++ behind.rest ∧ behind.offset = input.offset + chars.length ∧
      (∀ c ∈ chars, p c = true) ∧ ∀ c ∈ behind.rest.head?, p c = false := by
  obtain ⟨offset, rest⟩ := input
  obtain ⟨place, left⟩ := behind
  simp only [takeWhile, Prod.mk.injEq, mk.injEq]
  constructor
  · rintro ⟨rfl, rfl, rfl⟩
    refine ⟨List.takeWhile_append_dropWhile.symm, rfl, List.all_eq_true.mp List.all_takeWhile, ?_⟩
    intro c next
    have stops := List.head?_dropWhile_not p rest
    rw [next] at stops
    simpa using stops
  · rintro ⟨rfl, rfl, all, stops⟩
    have none_ : left.takeWhile p = [] ∧ left.dropWhile p = left := by
      cases left with
      | nil => exact ⟨rfl, rfl⟩
      | cons c left => simp [stops c rfl]
    rw [List.takeWhile_append_of_pos all, List.dropWhile_append_of_pos all, none_.1, none_.2]
    simp

/-- A run of characters of a class is taken if it is not empty. -/
theorem takeSome?_eq_some : input.takeSome? p = some (chars, behind) ↔
    input.takeWhile p = (chars, behind) ∧ chars ≠ [] := by
  unfold takeSome?
  split
  · rename_i taken
    rw [taken]
    simp only [reduceCtorEq, Prod.mk.injEq, false_iff]
    rintro ⟨⟨rfl, -⟩, filled⟩
    exact filled rfl
  · rename_i found differ
    rw [Option.some.injEq]
    refine ⟨fun same => ⟨same, ?_⟩, fun same => same.1⟩
    rintro rfl
    exact differ _ same

theorem lt_of_takeSome? (read : input.takeSome? p = some (chars, behind)) : input < behind := by
  obtain ⟨run, filled⟩ := takeSome?_eq_some.mp read
  obtain ⟨rest, offset, -⟩ := takeWhile_eq.mp run
  cases chars with
  | nil => exact absurd rfl filled
  | cons c chars => exact lt_of_read rest offset

theorem le_of_takeSome? (read : input.takeSome? p = some (chars, behind)) : input ≤ behind :=
  (lt_of_takeSome? read).le

theorem le_of_upTo {closer : Input → Option Input} (forward : ∀ input behind,
    closer input = some behind → input ≤ behind)
    (read : input.upTo closer = some (chars, behind)) : input ≤ behind := by
  obtain ⟨offset, rest⟩ := input
  unfold upTo at read
  induction rest generalizing offset chars with
  | nil => cases read
  | cons c rest ih =>
    simp only [upToFrom] at read
    split at read
    · rename_i found
      cases read
      exact forward _ _ found
    · obtain ⟨⟨before, found⟩, later, same⟩ := Option.map_eq_some_iff.mp read
      cases same
      exact le_trans ⟨[c], rfl, rfl⟩ (ih (offset + 1) later)

theorem le_takeUntil (stops : List Char → Bool) (input : Input) :
    input ≤ (input.takeUntil stops).2 := by
  obtain ⟨offset, rest⟩ := input
  unfold takeUntil
  induction rest generalizing offset with
  | nil => exact le_refl _
  | cons c rest ih =>
    simp only [untilFrom]
    split
    · exact le_refl _
    · exact le_trans ⟨[c], rfl, rfl⟩ (ih (offset + 1))

theorem le_of_takeUntil {stops : List Char → Bool}
    (read : input.takeUntil stops = (chars, behind)) : input ≤ behind := by
  have := le_takeUntil stops input
  rwa [read] at this

/-- Text is read up to a stop or to the end. -/
theorem stops_of_takeUntil {stops : List Char → Bool}
    (read : input.takeUntil stops = (chars, behind)) (more : behind.atEnd = false) :
    stops behind.rest = true := by
  obtain ⟨offset, rest⟩ := input
  unfold takeUntil at read
  induction rest generalizing offset chars with
  | nil =>
    cases read
    cases more
  | cons c rest ih =>
    simp only [untilFrom] at read
    split at read
    · rename_i stopped
      cases read
      exact stopped
    · cases read
      exact ih (offset + 1) rfl

theorem le_of_eatClose? (read : input.eatClose? = some behind) : input ≤ behind :=
  (le_skipOptional _ _).trans (le_of_eat? read)

theorem lt_of_eatOpen? (read : input.eatOpen? = some behind) : input < behind := by
  obtain ⟨opened, braces, rfl⟩ := Option.map_eq_some_iff.mp read
  exact (lt_of_eat? braces).trans_le (le_skipOptional _ _)

theorem le_of_eatOpen? (read : input.eatOpen? = some behind) : input ≤ behind :=
  (lt_of_eatOpen? read).le

theorem lt_of_commentOpen? {isLong : Bool} (read : input.commentOpen? = some (isLong, behind)) :
    input < behind := by
  obtain ⟨mark, found, same⟩ := Option.map_eq_some_iff.mp read
  obtain ⟨opened, opens, found⟩ := Option.bind_eq_some_iff.mp found
  have marked := (lt_of_eatOpen? opens).trans (lt_of_eat? found)
  split at same
  · rename_i dashes
    cases same
    exact marked.trans_le (le_of_eat? dashes)
  · cases same
    exact marked

theorem le_of_commentOpen? {isLong : Bool} (read : input.commentOpen? = some (isLong, behind)) :
    input ≤ behind :=
  (lt_of_commentOpen? read).le

theorem le_of_longCommentClose? (read : input.longCommentClose? = some behind) :
    input ≤ behind := by
  obtain ⟨dashes, found, closes⟩ := Option.bind_eq_some_iff.mp read
  exact (le_of_eat? found).trans (le_of_eatClose? closes)

theorem le_of_closeBlock? (read : input.closeBlock? = some (chars, behind)) : input ≤ behind := by
  simp only [closeBlock?, bind, Option.bind_eq_some_iff, pure, Option.some.injEq, Prod.mk.injEq,
    Prod.exists] at read
  obtain ⟨opened, opens, slash, slashed, name, named, taken, closed, closes, rfl, rfl⟩ := read
  calc
    input ≤ opened := le_of_eatOpen? opens
    _ ≤ slash := le_of_eat? slashed
    _ ≤ slash.skipBlank := le_skipBlank _
    _ ≤ named := le_of_takeSome? taken
    _ ≤ named.skipBlank := le_skipBlank _
    _ ≤ closed := le_of_eatClose? closes

theorem lt_of_eatElse? (read : input.eatElse? = some behind) : input < behind := by
  simp only [eatElse?, bind, Option.bind_eq_some_iff] at read
  obtain ⟨opened, opens, word, spelled, ends⟩ := read
  have reached := (lt_of_eatOpen? opens).trans_le ((le_skipBlank _).trans (le_of_eat? spelled))
  split at ends
  · split at ends
    · cases ends
      exact reached
    · cases ends
  · cases ends

theorem le_of_eatElse? (read : input.eatElse? = some behind) : input ≤ behind :=
  (lt_of_eatElse? read).le

theorem le_of_tagName? (read : input.tagName? = some (chars, behind)) : input ≤ behind := by
  unfold tagName? at read
  split at read
  · split at read
    · have := le_takeWhile isTagNameChar input
      rwa [Option.some.inj read] at this
    · cases read
  · cases read

theorem le_takeText (input : Input) : input ≤ input.takeText.2 := by
  obtain ⟨offset, rest⟩ := input
  cases rest with
  | nil => exact le_refl _
  | cons c rest => exact le_trans ⟨[c], rfl, rfl⟩ (le_takeUntil endsText ⟨offset + 1, rest⟩)

/-- Running text is at least one character. -/
theorem lt_takeText (more : input.atEnd = false) : input < input.takeText.2 := by
  obtain ⟨offset, rest⟩ := input
  cases rest with
  | nil => cases more
  | cons c rest =>
    have first : (⟨offset, c :: rest⟩ : Input) < ⟨offset + 1, rest⟩ :=
      lt_iff.mpr ⟨⟨[c], rfl, rfl⟩, Nat.lt_succ_self offset⟩
    exact first.trans_le (le_takeUntil endsText ⟨offset + 1, rest⟩)

theorem lt_of_argumentName? (read : input.argumentName? = some (chars, behind)) :
    input < behind := by
  simp only [argumentName?, bind, Option.bind_eq_some_iff, pure, Option.some.injEq, Prod.mk.injEq,
    Prod.exists] at read
  obtain ⟨name, named, taken, equals, read, rfl, rfl⟩ := read
  exact (lt_of_takeSome? taken).trans (lt_of_eat? read)

theorem le_of_argumentName? (read : input.argumentName? = some (chars, behind)) :
    input ≤ behind :=
  (lt_of_argumentName? read).le

theorem lt_of_blockParams? {names : List String}
    (read : input.blockParams? = some (names, behind)) : input < behind := by
  simp only [blockParams?, bind, Option.bind_eq_some_iff, pure, Option.some.injEq, Prod.mk.injEq,
    Prod.exists] at read
  obtain ⟨word, spelled, blanks, spaced, taken, opened, opens, closed, closes, -, rfl⟩ := read
  calc
    input < word := lt_of_eat? spelled
    _ ≤ spaced := le_of_takeSome? taken
    _ ≤ opened := le_of_eat? opens
    _ ≤ (opened.takeWhile (· != '|')).2 := le_takeWhile _ _
    _ ≤ closed := le_of_eat? closes

theorem le_of_blockParams? {names : List String}
    (read : input.blockParams? = some (names, behind)) : input ≤ behind :=
  (lt_of_blockParams? read).le

theorem le_fraction (input : Input) : input ≤ input.fraction.2 := by
  unfold fraction
  split
  · rename_i found read
    obtain ⟨point, pointed, taken⟩ := Option.bind_eq_some_iff.mp read
    exact (le_of_eat? pointed).trans (le_of_takeSome? taken)
  · exact le_refl _

theorem lt_of_number? {found : List Char × Double} (read : input.number? = some (found, behind)) :
    input < behind := by
  simp only [number?, bind, Option.bind_eq_some_iff, Prod.exists] at read
  obtain ⟨whole, wholeEnd, taken, ends⟩ := read
  have reached := (le_skipOptional ['-'] input).trans_lt
    ((lt_of_takeSome? taken).trans_le (le_fraction wholeEnd))
  split at ends
  · cases ends
    exact reached
  · cases ends

theorem le_of_number? {found : List Char × Double} (read : input.number? = some (found, behind)) :
    input ≤ behind :=
  (lt_of_number? read).le

theorem le_of_stringTail? {quote : Char} {offset : Nat} {rest : List Char}
    (read : stringTail? quote offset rest = some (chars, behind)) : ⟨offset, rest⟩ ≤ behind := by
  induction offset, rest using stringTail?.induct quote generalizing chars with
  | case1 => cases read
  | case2 offset =>
    simp only [stringTail?, ↓reduceIte] at read
    cases read
    exact ⟨[_], rfl, rfl⟩
  | case3 offset c differ =>
    simp only [stringTail?, differ, ↓reduceIte] at read
    cases read
  | case4 offset c d rest escaped ih =>
    simp only [stringTail?, escaped, ↓reduceIte, and_self] at read
    obtain ⟨⟨value, found⟩, later, same⟩ := Option.map_eq_some_iff.mp read
    cases same
    exact le_trans ⟨[c, d], rfl, rfl⟩ (ih later)
  | case5 offset d rest differ =>
    simp only [stringTail?, differ, ↓reduceIte] at read
    cases read
    exact ⟨[_], rfl, rfl⟩
  | case6 offset c d rest plain differ ih =>
    simp only [stringTail?, plain, differ, ↓reduceIte] at read
    obtain ⟨⟨value, found⟩, later, same⟩ := Option.map_eq_some_iff.mp read
    cases same
    exact le_trans ⟨[c], rfl, rfl⟩ (ih later)

/-! ## The end of a body -/

theorem endsBody_of_closing (closes : input.eat? ('<' :: '/' :: chars) = some behind) :
    input.endsBody = true := by
  have seen : input.sees ['<', '/'] = true := by
    have angle : input.eat? ['<', '/'] = some ⟨input.offset + 2, chars ++ behind.rest⟩ :=
      eat?_eq_some.mpr ⟨(eat?_eq_some.mp closes).1, rfl⟩
    rw [sees, angle]
    rfl
  simp [endsBody, seen]

theorem endsBody_of_closeBlock? (closes : input.closeBlock? = some (chars, behind)) :
    input.endsBody = true := by
  simp [endsBody, closes]

theorem endsBody_of_eatElse? (otherwise : input.eatElse? = some behind) :
    input.endsBody = true := by
  simp [endsBody, otherwise]

/-! ## Block parameters -/

/-- Reads the beginning of a list of block parameters up to and with its bar. -/
def bar? (input : Input) : Option Input :=
  (input.eat? ['a', 's']).bind fun word => (word.takeSome? isBlank).bind fun spaced =>
    spaced.2.eat? ['|']

theorem seesBlockParams_eq (input : Input) : input.seesBlockParams = input.bar?.isSome := by
  unfold seesBlockParams bar?
  cases input.eat? ['a', 's'] with
  | none => rfl
  | some word =>
    simp only [Option.bind_some]
    cases word.takeSome? isBlank with
    | none => rfl
    | some spaced => rfl

theorem blockParams?_eq (input : Input) : input.blockParams? = input.bar?.bind fun opened =>
    ((opened.takeWhile (· != '|')).2.eat? ['|']).map fun closed =>
      ((words (opened.takeWhile (· != '|')).1).map String.ofList, closed) := by
  unfold blockParams? bar?
  simp only [bind, Option.bind_assoc]
  cases input.eat? ['a', 's'] with
  | none => rfl
  | some word =>
    simp only [Option.bind_some]
    cases word.takeSome? isBlank with
    | none => rfl
    | some spaced =>
      simp only [Option.bind_some]
      cases spaced.2.eat? ['|'] with
      | none => rfl
      | some opened =>
        simp only [Option.bind_some]
        cases (opened.takeWhile (· != '|')).2.eat? ['|'] <;> rfl

theorem le_of_bar? (read : input.bar? = some behind) : input ≤ behind := by
  obtain ⟨word, spelled, rest⟩ := Option.bind_eq_some_iff.mp read
  obtain ⟨⟨blanks, spaced⟩, taken, opens⟩ := Option.bind_eq_some_iff.mp rest
  exact ((le_of_eat? spelled).trans (le_of_takeSome? taken)).trans (le_of_eat? opens)

theorem lt_of_bar? (read : input.bar? = some behind) : input.offset < behind.offset := by
  obtain ⟨word, spelled, rest⟩ := Option.bind_eq_some_iff.mp read
  obtain ⟨⟨blanks, spaced⟩, taken, opens⟩ := Option.bind_eq_some_iff.mp rest
  have first := (eat?_eq_some.mp spelled).2
  have others := offset_le ((le_of_takeSome? taken).trans (le_of_eat? opens))
  simp only [List.length_cons, List.length_nil] at first
  omega

/-- A bar closes the list of block parameters if there is one at all. -/
theorem eat?_bar_eq_none :
    (input.takeWhile (· != '|')).2.eat? ['|'] = none ↔ '|' ∉ input.rest := by
  cases run : input.takeWhile (· != '|') with
  | mk chars behind =>
    obtain ⟨rest, -, all, stops⟩ := takeWhile_eq.mp run
    have unbarred : '|' ∉ chars := fun member => by simpa using all _ member
    rw [rest, List.mem_append, not_or]
    obtain ⟨offset, left⟩ := behind
    cases left with
    | nil => simp [eat?, unbarred]
    | cons c left =>
      have bar : c = '|' := by simpa using stops c rfl
      simp [eat?, bar]

/-! ## String literals -/

/-- The value of what stands between two quotes, a backslash before a quote standing for the quote; or
nothing, if the literal ends in it or goes on behind it. -/
def unescape (quote : Char) : List Char → Option (List Char)
  | [] => some []
  | [c] => if c = '\\' ∨ c = quote then none else some [c]
  | c :: d :: rest =>
    if c = '\\' ∧ d = quote then (unescape quote rest).map (quote :: ·)
    else if c = quote then none
    else (unescape quote (d :: rest)).map (c :: ·)

section Strings
variable {quote c : Char} {offset : Nat} {rest raw value : List Char}

/-- A character that begins no escaped quote stands for itself. -/
theorem unescape_cons (plain : c ≠ quote)
    (unescaped : c = '\\' → ∃ d others, rest = d :: others ∧ d ≠ quote) :
    unescape quote (c :: rest) = (unescape quote rest).map (c :: ·) := by
  cases rest with
  | nil =>
    have back : c ≠ '\\' := by
      intro same
      obtain ⟨d, others, empty, -⟩ := unescaped same
      cases empty
    simp [unescape, plain, back]
  | cons d others =>
    have single : ¬ (c = '\\' ∧ d = quote) := by
      rintro ⟨same, next⟩
      obtain ⟨e, _, spelled, differ⟩ := unescaped same
      exact differ (next ▸ (List.cons.inj spelled).1.symm)
    simp [unescape, plain, single]

/-- A string begins with an escaped quote or with a character that stands for itself. -/
theorem unescape_cons_eq_some (read : unescape quote (c :: rest) = some value) :
    (∃ later inner, c = '\\' ∧ rest = quote :: later ∧ value = quote :: inner ∧
      unescape quote later = some inner) ∨
    ∃ inner, c ≠ quote ∧ (c = '\\' → ∃ d others, rest = d :: others ∧ d ≠ quote) ∧
      value = c :: inner ∧ unescape quote rest = some inner := by
  cases rest with
  | nil =>
    simp only [unescape] at read
    split at read
    · cases read
    · rename_i differ
      obtain ⟨back, differ⟩ := not_or.mp differ
      cases read
      exact .inr ⟨[], differ, fun same => absurd same back, rfl, rfl⟩
  | cons d others =>
    simp only [unescape] at read
    split at read
    · rename_i escaped
      obtain ⟨rfl, rfl⟩ := escaped
      obtain ⟨inner, later, rfl⟩ := Option.map_eq_some_iff.mp read
      exact .inl ⟨others, inner, rfl, rfl, rfl, later⟩
    · rename_i single
      split at read
      · cases read
      · rename_i differ
        obtain ⟨inner, later, rfl⟩ := Option.map_eq_some_iff.mp read
        exact .inr ⟨inner, differ, fun same => ⟨d, others, rfl, fun next => single ⟨same, next⟩⟩,
          rfl, later⟩

private theorem stringTail?_quote (plain : quote ≠ '\\') :
    stringTail? quote offset (quote :: rest) = some ([], ⟨offset + 1, rest⟩) := by
  cases rest with
  | nil => simp [stringTail?]
  | cons d rest => simp [stringTail?, plain]

private theorem stringTail?_of_unescape (plain : quote ≠ '\\')
    (value_ : unescape quote raw = some value) : stringTail? quote offset (raw ++ quote :: rest) =
      some (value, ⟨offset + raw.length + 1, rest⟩) := by
  induction raw using unescape.induct quote generalizing offset value with
  | case1 =>
    cases value_
    exact stringTail?_quote plain
  | case2 c ends => simp [unescape, ends] at value_
  | case3 c differ =>
    simp only [unescape, differ, ↓reduceIte, Option.some.injEq] at value_
    subst value_
    obtain ⟨back, differ⟩ := not_or.mp differ
    simp [stringTail?, back, differ, stringTail?_quote plain]
  | case4 c d raw escaped ih =>
    simp only [unescape, escaped, and_self, ↓reduceIte, Option.map_eq_some_iff] at value_
    obtain ⟨value, inner, rfl⟩ := value_
    simp only [List.cons_append, stringTail?, escaped, and_self, ↓reduceIte, ih inner,
      Option.map_some, List.length_cons, Option.some.injEq, Prod.mk.injEq, mk.injEq, true_and,
      and_true]
    omega
  | case5 d raw open_ => simp [unescape, open_] at value_
  | case6 c d raw open_ differ ih =>
    simp only [unescape, open_, differ, ↓reduceIte, Option.map_eq_some_iff] at value_
    obtain ⟨value, inner, rfl⟩ := value_
    have further : stringTail? quote (offset + 1) _ = _ := ih inner
    rw [List.cons_append] at further
    simp only [List.cons_append, stringTail?, open_, differ, ↓reduceIte, further,
      Option.map_some, List.length_cons, Option.some.injEq, Prod.mk.injEq, mk.injEq, true_and,
      and_true]
    omega

/-- A string literal goes up to a quote, and its value is that of what stands before it. -/
theorem stringTail?_eq_some (plain : quote ≠ '\\') :
    stringTail? quote offset rest = some (value, behind) ↔
      ∃ raw, rest = raw ++ quote :: behind.rest ∧ behind.offset = offset + raw.length + 1 ∧
        unescape quote raw = some value := by
  constructor
  · intro read
    induction offset, rest using stringTail?.induct quote generalizing value with
    | case1 => cases read
    | case2 offset =>
      simp only [stringTail?, ↓reduceIte] at read
      cases read
      exact ⟨[], rfl, rfl, rfl⟩
    | case3 offset c differ =>
      simp only [stringTail?, differ, ↓reduceIte] at read
      cases read
    | case4 offset c d rest escaped ih =>
      simp only [stringTail?, escaped, ↓reduceIte, and_self] at read
      obtain ⟨⟨inner, found⟩, later, same⟩ := Option.map_eq_some_iff.mp read
      cases same
      obtain ⟨raw, rfl, place, value⟩ := ih later
      simp only at place
      refine ⟨c :: d :: raw, rfl, ?_, by simp [unescape, escaped, value]⟩
      simp only [List.length_cons]
      omega
    | case5 offset d rest open_ =>
      simp only [stringTail?, open_, ↓reduceIte] at read
      cases read
      exact ⟨[], rfl, rfl, rfl⟩
    | case6 offset c d rest open_ differ ih =>
      simp only [stringTail?, open_, differ, ↓reduceIte] at read
      obtain ⟨⟨inner, found⟩, later, same⟩ := Option.map_eq_some_iff.mp read
      cases same
      obtain ⟨raw, split, place, value⟩ := ih later
      simp only at place
      refine ⟨c :: raw, by rw [split]; rfl, by simp only [List.length_cons]; omega, ?_⟩
      cases raw with
      | nil =>
        obtain ⟨rfl, -⟩ := List.cons.inj split
        cases value
        have back : c ≠ '\\' := fun same => open_ ⟨same, rfl⟩
        simp [unescape, back, differ]
      | cons e raw =>
        obtain ⟨rfl, -⟩ := List.cons.inj split
        simp [unescape, open_, differ, value]
  · rintro ⟨raw, rfl, place, value⟩
    rw [stringTail?_of_unescape plain value, ← place]

end Strings

end Input

theorem quoteAhead_eq_some {input : Input} {quote : Char} : quoteAhead input = some quote ↔
    ∃ rest, input.rest = quote :: rest ∧ (quote = '\'' ∨ quote = '"') := by
  obtain ⟨offset, rest⟩ := input
  cases rest with
  | nil => simp [quoteAhead]
  | cons c rest =>
    simp only [quoteAhead, List.cons.injEq]
    constructor
    · intro ahead
      split at ahead
      · rename_i single
        cases ahead
        exact ⟨rest, ⟨rfl, rfl⟩, single⟩
      · cases ahead
    · rintro ⟨others, ⟨rfl, rfl⟩, single⟩
      rw [if_pos single]

end EmberAssist.Template
