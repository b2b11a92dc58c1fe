import EmberAssist.Proofs.Template.Placement

/-! The characters that a lexeme is read from, and the part of a text that stands between two
inputs. -/
namespace EmberAssist.Template

open Text

/-- Some characters stand between an input and a later one. -/
def Input.Passes (input : Input) (read : List Char) (behind : Input) : Prop :=
  input.rest = read ++ behind.rest ∧ behind.offset = input.offset + read.length

/-- A part of a text is covered by a place. -/
def Covers {ρ : Type} (place : Span → ρ) (chars part : List Char) (here : ρ) : Prop :=
  ∃ before after, chars = before ++ part ++ after ∧
    here = place ⟨before.length, before.length + part.length⟩

variable {root input opened behind next stop closed : Input} {chars read more name : List Char}
variable {p : Char → Bool}

theorem Covers.map {ρ σ : Type} {place : Span → ρ} {here : ρ} (move : ρ → σ)
    (covers : Covers place chars read here) : Covers (move ∘ place) chars read (move here) := by
  obtain ⟨before, after, source, rfl⟩ := covers
  exact ⟨before, after, source, rfl⟩

namespace Input

theorem exists_passes (order : input ≤ behind) : ∃ read, input.Passes read behind := order

namespace Passes

theorem le (passes : input.Passes read behind) : input ≤ behind := ⟨read, passes⟩

theorem refl (input : Input) : input.Passes [] input := ⟨rfl, rfl⟩

theorem trans (first : input.Passes read next) (second : next.Passes more behind) :
    input.Passes (read ++ more) behind := by
  obtain ⟨rest, offset⟩ := first
  obtain ⟨later, further⟩ := second
  refine ⟨by rw [rest, later, List.append_assoc], ?_⟩
  rw [further, offset, List.length_append, Nat.add_assoc]

/-- What stands between two inputs is a part of the text. -/
theorem source (passes : input.Passes read behind) (reach : .ofText chars ≤ input) :
    ∃ before after, input.offset = before.length ∧ chars = before ++ read ++ after := by
  obtain ⟨before, source, offset⟩ := source_of_reach reach
  exact ⟨before, behind.rest, offset, by rw [source, passes.1, List.append_assoc]⟩

theorem covers (passes : input.Passes read behind) (reach : .ofText chars ≤ input) :
    Covers id chars read ⟨input.offset, behind.offset⟩ := by
  obtain ⟨before, after, offset, source⟩ := passes.source reach
  exact ⟨before, after, source, by rw [passes.2, offset]; rfl⟩

end Passes

private theorem passes_head (offset : Nat) (c : Char) (rest : List Char) :
    Input.Passes ⟨offset, c :: rest⟩ [c] ⟨offset + 1, rest⟩ := ⟨rfl, rfl⟩

theorem passes_of_eat? {pattern : List Char} (read : input.eat? pattern = some behind) :
    input.Passes pattern behind := eat?_eq_some.mp read

theorem passes_of_takeWhile (taken : input.takeWhile p = (chars, behind)) :
    input.Passes chars behind :=
  ⟨(takeWhile_eq.mp taken).1, (takeWhile_eq.mp taken).2.1⟩

theorem passes_of_takeSome? (taken : input.takeSome? p = some (chars, behind)) :
    input.Passes chars behind := passes_of_takeWhile (takeSome?_eq_some.mp taken).1

section Runs
variable {offset : Nat} {run rest : List Char}

theorem eat?_append (pattern : List Char) :
    eat? pattern ⟨offset, pattern ++ rest⟩ = some ⟨offset + pattern.length, rest⟩ :=
  eat?_eq_some.mpr ⟨rfl, rfl⟩

theorem takeWhile_append (all : ∀ c ∈ run, p c = true) (stops : ∀ c ∈ rest.head?, p c = false) :
    takeWhile p ⟨offset, run ++ rest⟩ = (run, ⟨offset + run.length, rest⟩) :=
  takeWhile_eq.mpr ⟨rfl, rfl, all, stops⟩

theorem takeSome?_append (filled : run ≠ []) (all : ∀ c ∈ run, p c = true)
    (stops : ∀ c ∈ rest.head?, p c = false) :
    takeSome? p ⟨offset, run ++ rest⟩ = some (run, ⟨offset + run.length, rest⟩) :=
  takeSome?_eq_some.mpr ⟨takeWhile_append all stops, filled⟩

theorem skipBlank_append (all : ∀ c ∈ run, isBlank c = true)
    (stops : ∀ c ∈ rest.head?, isBlank c = false) :
    skipBlank ⟨offset, run ++ rest⟩ = ⟨offset + run.length, rest⟩ := by
  rw [skipBlank, skipWhile, takeWhile_append all stops]

end Runs

theorem passes_of_takeUntil {stops : List Char → Bool}
    (taken : input.takeUntil stops = (chars, behind)) : input.Passes chars behind := by
  obtain ⟨offset, rest⟩ := input
  unfold takeUntil at taken
  induction rest generalizing offset chars with
  | nil =>
    cases taken
    exact ⟨rfl, rfl⟩
  | cons c rest ih =>
    simp only [untilFrom] at taken
    split at taken
    · cases taken
      exact ⟨rfl, rfl⟩
    · cases taken
      exact (passes_head offset c rest).trans (ih (offset + 1) rfl)

theorem passes_takeText (input : Input) : input.Passes input.takeText.1 input.takeText.2 := by
  obtain ⟨offset, rest⟩ := input
  cases rest with
  | nil => exact .refl _
  | cons c rest =>
    have later : (Input.mk (offset + 1) rest).takeUntil endsText = (_, _) := rfl
    exact (passes_head offset c rest).trans (passes_of_takeUntil later)

/-! ## Blanks and tildes -/

/-- Only blanks are skipped as blanks. -/
theorem passes_skipBlank (input : Input) :
    ∃ blanks, (∀ c ∈ blanks, isBlank c = true) ∧ input.Passes blanks input.skipBlank := by
  cases run : input.takeWhile isBlank with
  | mk blanks spaced =>
    refine ⟨blanks, (takeWhile_eq.mp run).2.2.1, ?_⟩
    rw [skipBlank, skipWhile, run]
    exact passes_of_takeWhile run

theorem passes_skipOptional (pattern : List Char) (input : Input) :
    ∃ read, (read = [] ∨ read = pattern) ∧ input.Passes read (input.skipOptional pattern) := by
  unfold skipOptional
  cases found : input.eat? pattern with
  | none => exact ⟨[], .inl rfl, .refl _⟩
  | some behind => exact ⟨pattern, .inr rfl, passes_of_eat? found⟩

/-- The braces that open a tag, and those with a tilde behind them. -/
def openers : List (List Char) := [openBraces, openBraces ++ ['~']]

/-- The braces that close a tag, and those with a tilde before them. -/
def closers : List (List Char) := [closeBraces, '~' :: closeBraces]

theorem passes_of_eatOpen? (read : input.eatOpen? = some behind) :
    ∃ opener ∈ openers, input.Passes opener behind := by
  obtain ⟨opened, braces, rfl⟩ := Option.map_eq_some_iff.mp read
  obtain ⟨tilde, optional, passes⟩ := passes_skipOptional ['~'] opened
  have whole := (passes_of_eat? braces).trans passes
  refine ⟨_, ?_, whole⟩
  rcases optional with rfl | rfl <;> simp [openers]

/-- A tag is closed exactly where one of its closers comes next. -/
theorem eatClose?_eq_some :
    input.eatClose? = some behind ↔ ∃ closer ∈ closers, input.Passes closer behind := by
  unfold eatClose? skipOptional
  cases tilde : input.eat? ['~'] with
  | none =>
    refine ⟨fun read => ⟨closeBraces, by simp [closers], passes_of_eat? read⟩, ?_⟩
    rintro ⟨closer, member, passes⟩
    rcases List.mem_cons.mp member with rfl | member
    · exact eat?_eq_some.mpr passes
    · rw [List.mem_singleton.mp member] at passes
      have next : input.eat? ['~'] = some ⟨input.offset + 1, closeBraces ++ behind.rest⟩ :=
        eat?_eq_some.mpr ⟨passes.1, rfl⟩
      rw [next] at tilde
      cases tilde
  | some next =>
    have first := passes_of_eat? tilde
    constructor
    · intro read
      exact ⟨'~' :: closeBraces, by simp [closers], first.trans (passes_of_eat? read)⟩
    · rintro ⟨closer, member, rest, offset⟩
      rw [first.1] at rest
      rcases List.mem_cons.mp member with rfl | member
      · cases rest
      · rw [List.mem_singleton.mp member] at rest offset
        refine eat?_eq_some.mpr ⟨(List.cons.inj rest).2, ?_⟩
        rw [offset, Option.getD_some, first.2, List.length_cons, List.length_singleton]
        omega

/-! ## Comments -/

/-- The openers of comments between braces; those of long comments end in two dashes. -/
def commentOpeners (isLong : Bool) : List (List Char) :=
  openers.map fun opener => opener ++ '!' :: if isLong then ['-', '-'] else []

/-- The closers of comments between braces; those of long comments begin with two dashes. -/
def commentClosers (isLong : Bool) : List (List Char) :=
  closers.map fun closer => (if isLong then ['-', '-'] else []) ++ closer

/-- A comment is short only if no dashes come next. -/
theorem passes_of_commentOpen? {isLong : Bool} (read : input.commentOpen? = some (isLong, behind)) :
    (∃ opener ∈ commentOpeners isLong, input.Passes opener behind) ∧
      (isLong = false → behind.eat? ['-', '-'] = none) := by
  obtain ⟨mark, found, same⟩ := Option.map_eq_some_iff.mp read
  obtain ⟨opened, opens, found⟩ := Option.bind_eq_some_iff.mp found
  obtain ⟨opener, member, passes⟩ := passes_of_eatOpen? opens
  have marked := passes.trans (passes_of_eat? found)
  cases dashes : mark.eat? ['-', '-'] with
  | some next =>
    rw [dashes] at same
    cases same
    have whole := marked.trans (passes_of_eat? dashes)
    rw [List.append_assoc] at whole
    exact ⟨⟨_, List.mem_map.mpr ⟨opener, member, rfl⟩, whole⟩, nofun⟩
  | none =>
    rw [dashes] at same
    cases same
    exact ⟨⟨_, List.mem_map.mpr ⟨opener, member, rfl⟩, marked⟩, fun _ => dashes⟩

/-- A comment ends exactly where one of its closers comes next. -/
theorem commentCloser_eq_some {isLong : Bool} : commentCloser isLong input = some behind ↔
    ∃ closer ∈ commentClosers isLong, input.Passes closer behind := by
  cases isLong with
  | false => simpa [commentCloser, commentClosers] using eatClose?_eq_some
  | true =>
    simp only [commentCloser, ↓reduceIte, longCommentClose?, Option.bind_eq_some_iff,
      commentClosers, List.mem_map, eatClose?_eq_some]
    constructor
    · rintro ⟨dashes, found, closer, member, passes⟩
      exact ⟨_, ⟨closer, member, rfl⟩, (passes_of_eat? found).trans passes⟩
    · rintro ⟨_, ⟨closer, member, rfl⟩, rest, offset⟩
      refine ⟨⟨input.offset + 2, closer ++ behind.rest⟩, eat?_eq_some.mpr ⟨?_, rfl⟩, closer, member,
        rfl, ?_⟩
      · rw [rest, List.append_assoc]
      · rw [offset, List.length_append]
        exact (Nat.add_assoc _ _ _).symm

/-- What is read up to a closer goes up to the first place where the closer can be read. -/
theorem passes_of_upTo {closer : Input → Option Input}
    (read : input.upTo closer = some (chars, behind)) : ∃ stop, input.Passes chars stop ∧
      closer stop = some behind ∧
        ∀ early, input ≤ early → early.offset < stop.offset → closer early = none := by
  obtain ⟨offset, rest⟩ := input
  unfold upTo at read
  induction rest generalizing offset chars with
  | nil => cases read
  | cons c rest ih =>
    simp only [upToFrom] at read
    split at read
    · rename_i found
      cases read
      refine ⟨_, .refl _, found, fun early order before => ?_⟩
      have := offset_le order
      omega
    · rename_i closes
      obtain ⟨⟨before, found⟩, later, same⟩ := Option.map_eq_some_iff.mp read
      cases same
      obtain ⟨stop, passes, found, first⟩ := ih (offset + 1) later
      refine ⟨stop, (passes_head offset c rest).trans passes, found, fun early order before => ?_⟩
      obtain ⟨skipped, source, place⟩ := order
      cases skipped with
      | nil =>
        obtain rfl : (⟨offset, c :: rest⟩ : Input) = early := by
          cases early
          simp_all
        exact closes
      | cons d skipped =>
        refine first early ⟨skipped, (List.cons.inj source).2, ?_⟩ before
        simp only [place, List.length_cons]
        omega

/-! ## Block tags -/

/-- A tag that closes the blocks of some name. -/
def ClosesBlock (name part : List Char) : Prop :=
  ∃ opener ∈ openers, ∃ closer ∈ closers, ∃ left right, (∀ c ∈ left ++ right, isBlank c = true) ∧
    part = opener ++ '/' :: left ++ name ++ right ++ closer

theorem passes_of_closeBlock? (read : input.closeBlock? = some (name, behind)) :
    ∃ part, ClosesBlock name part ∧ input.Passes part behind := by
  simp only [closeBlock?, bind, Option.bind_eq_some_iff, pure, Option.some.injEq, Prod.mk.injEq,
    Prod.exists] at read
  obtain ⟨opened, opens, slash, slashed, _, named, taken, closed, closes, rfl, rfl⟩ := read
  obtain ⟨opener, opening, first⟩ := passes_of_eatOpen? opens
  obtain ⟨left, leftBlank, second⟩ := passes_skipBlank slash
  obtain ⟨right, rightBlank, third⟩ := passes_skipBlank named
  obtain ⟨closer, closing, last⟩ := eatClose?_eq_some.mp closes
  have whole := ((((first.trans (passes_of_eat? slashed)).trans second).trans
    (passes_of_takeSome? taken)).trans third).trans last
  refine ⟨_, ⟨opener, opening, closer, closing, left, right, ?_, ?_⟩, whole⟩
  · intro c member
    exact (List.mem_append.mp member).elim (leftBlank c) (rightBlank c)
  · simp

/-- The beginning of an else tag: its word, perhaps with blanks before it. -/
theorem passes_of_eatElse? (read : input.eatElse? = some behind) :
    ∃ opener ∈ openers, ∃ blanks, (∀ c ∈ blanks, isBlank c = true) ∧
      input.Passes (opener ++ blanks ++ ['e', 'l', 's', 'e']) behind := by
  simp only [eatElse?, bind, Option.bind_eq_some_iff] at read
  obtain ⟨opened, opens, word, spelled, ends⟩ := read
  obtain ⟨opener, opening, first⟩ := passes_of_eatOpen? opens
  obtain ⟨blanks, blank, second⟩ := passes_skipBlank opened
  have whole := (first.trans second).trans (passes_of_eat? spelled)
  split at ends
  · split at ends
    · cases ends
      exact ⟨opener, opening, blanks, blank, whole⟩
    · cases ends
  · cases ends

/-- The word of an else tag ends where it is read to. -/
theorem endsElse_of_eatElse? (read : input.eatElse? = some behind) :
    ∀ c ∈ behind.rest.head?, endsElse c = true := by
  simp only [eatElse?, bind, Option.bind_eq_some_iff] at read
  obtain ⟨opened, -, word, -, ends⟩ := read
  split at ends
  · split at ends
    · rename_i c rest spelled endsWord
      cases ends
      simpa [spelled] using endsWord
    · cases ends
  · cases ends

/-! ## Names and numbers -/

theorem passes_of_tagName? (read : input.tagName? = some (name, behind)) :
    input.Passes name behind := by
  unfold tagName? at read
  split at read
  · split at read
    · exact passes_of_takeWhile (Option.some.inj read)
    · cases read
  · cases read

theorem passes_of_argumentName? (read : input.argumentName? = some (name, behind)) :
    input.Passes (name ++ ['=']) behind := by
  simp only [argumentName?, bind, Option.bind_eq_some_iff, pure, Option.some.injEq, Prod.mk.injEq,
    Prod.exists] at read
  obtain ⟨_, named, taken, equals, read, rfl, rfl⟩ := read
  exact (passes_of_takeSome? taken).trans (passes_of_eat? read)

theorem passes_of_number? {value : Double} (read : input.number? = some ((chars, value), behind)) :
    input.Passes chars behind := by
  obtain ⟨spelling, source, length⟩ := le_of_number? read
  simp only [number?, bind, Option.bind_eq_some_iff, Prod.exists] at read
  obtain ⟨whole, wholeEnd, taken, ends⟩ := read
  split at ends
  · cases ends
    rw [length, Nat.add_sub_cancel_left, source, List.take_left]
    exact ⟨source, length⟩
  · cases ends

end Input

/-- A start tag ends as it is said to: with a slash if the element closes itself. -/
theorem Reads.passes_of_tagContent {depth : Nat} {content : TagContent}
    (reads : Reads depth .tagContent input (.content content) closed) :
    ∃ inside, input.Passes (inside ++ if content.selfClosing then ['/', '>'] else ['>']) closed := by
  induction depth generalizing input content with
  | zero => cases reads
  | succ depth ih =>
    have start := Input.le_skipBlank input
    have behind {next : Input} {held : TagContent} (order : input ≤ next)
        (rest : Reads depth .tagContent next (.content held) closed) :
        ∃ inside, input.Passes (inside ++ if held.selfClosing then ['/', '>'] else ['>']) closed := by
      obtain ⟨first, passes⟩ := Input.exists_passes order
      obtain ⟨inside, further⟩ := ih rest
      exact ⟨first ++ inside, by rw [List.append_assoc]; exact passes.trans further⟩
    cases reads with
    | selfClosed more closes =>
      obtain ⟨blanks, passes⟩ := Input.exists_passes start
      exact ⟨blanks, passes.trans (Input.passes_of_eat? closes)⟩
    | tagEnd more open_ closes =>
      obtain ⟨blanks, passes⟩ := Input.exists_passes start
      exact ⟨blanks, passes.trans (Input.passes_of_eat? closes)⟩
    | tagComment stays opens comment rest =>
      have order := (Input.le_of_commentOpen? opens).trans (le_of_readMustacheComment comment)
      exact (behind (start.trans order) rest :)
    | tagModifier stays plain opens invoked rest =>
      exact (behind (start.trans ((Input.le_of_eat? opens).trans invoked.le)) rest :)
    | tagParams stays plain bare declared rest =>
      exact (behind (start.trans (Input.le_of_blockParams? declared)) rest :)
    | tagAttribute stays plain bare undeclared taken rest =>
      exact (behind (start.trans taken.le) rest :)

end EmberAssist.Template
