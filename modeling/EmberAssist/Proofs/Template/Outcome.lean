import EmberAssist.Proofs.Cursor
import EmberAssist.Proofs.Template.Placement

/-! How reading a template ends. The depth that a descent starts with suffices for every text, since
each step down either reads a character or stands on the next level of the grammar; so a text is a
template or has a fault in it, told at one of its own places. -/
namespace EmberAssist.Template

variable {depth levels wanted : Nat} {root input opened behind next stop closed : Input}

/-- A fault is told at a place that the text reaches, and not for want of depth. -/
structure Failure.Told (root : Input) (failure : Failure) : Prop where
  shallow : failure.fault ≠ .nestedTooDeep
  within : ∃ place, root ≤ place ∧ failure.offset = place.offset

/-- Reading in the text that begins at `root` fails for no other reason than a fault of the text. -/
def Settles {α : Type} (root : Input) (result : Except Failure α) : Prop :=
  ∀ failure, result = .error failure → failure.Told root

namespace Settles
variable {α β : Type} {fault : Fault}

theorem ok (found : α) : Settles root (.ok found) := by
  intro failure failed
  cases failed

theorem fail (reach : root ≤ input) (shallow : fault ≠ .nestedTooDeep) :
    Settles root (input.fail fault : Except Failure α) := by
  intro failure failed
  cases failed
  exact ⟨shallow, input, reach, rfl⟩

theorem bind {first : Except Failure α} {rest : α → Except Failure β} (here : Settles root first)
    (later : ∀ found, first = .ok found → Settles root (rest found)) :
    Settles root (first >>= rest) := by
  intro failure failed
  cases found : first with
  | error fault =>
    rw [found] at failed
    cases failed
    exact here _ found
  | ok value =>
    rw [found] at failed
    exact later value found failure failed

theorem expect (reach : root ≤ input) (token : List Char) : Settles root (input.expect token) := by
  unfold Input.expect
  cases input.eat? token with
  | none => exact fail reach (by simp)
  | some behind => exact ok behind

end Settles

/-! ## Depth -/

namespace Input

/-- A depth suffices for what is left of the text and some more levels of the grammar. No step down
goes through more than eight levels without reading a character. -/
def Affords (levels depth : Nat) (input : Input) : Prop := 8 * input.rest.length + levels ≤ depth

namespace Affords

theorem pos (affords : input.Affords (levels + 1) depth) : depth ≠ 0 := by
  unfold Affords at affords
  omega

/-- One level down in the grammar. -/
theorem below (affords : input.Affords (levels + 1) (depth + 1)) : input.Affords levels depth := by
  unfold Affords at *
  omega

theorem reached (affords : input.Affords levels depth) (order : input ≤ behind) :
    behind.Affords levels depth := by
  obtain ⟨read, rest, -⟩ := order
  unfold Affords at *
  rw [rest, List.length_append] at affords
  omega

/-- A character that has been read is worth eight levels. -/
theorem passed (affords : input.Affords levels depth) (order : input < behind)
    (few : wanted ≤ levels + 8) : behind.Affords wanted depth := by
  obtain ⟨⟨read, rest, place⟩, offset⟩ := lt_iff.mp order
  unfold Affords at *
  rw [rest, List.length_append] at affords
  omega

end Affords

end Input

/-! ## Invocations -/

private theorem settles_readString {quote : Char} (reach : root ≤ input) :
    Settles root (readString input quote) := by
  unfold readString
  split
  · exact .ok _
  · exact .fail reach (by simp)

private theorem settles_readWord (reach : root ≤ input) : Settles root (readWord input) := by
  unfold readWord
  split
  · exact .ok _
  · split
    · exact .ok _
    · exact .fail reach (by simp)

private theorem lt_of_expression {node : Node Span}
    (read : expression depth input = .ok (node, behind)) : input < behind :=
  (Input.le_skipBlank input).trans_lt (((reads_invocation depth).1 read).lt (by rintro ⟨⟩))

/-- Expressions, invocations and arguments are read or have a fault in them. -/
theorem settles_invocation (depth : Nat) :
    (∀ {input}, root ≤ input → input.Affords 1 depth → Settles root (expression depth input)) ∧
    (∀ {input}, root ≤ input → input.Affords 2 depth → Settles root (call depth input)) ∧
    ∀ {afterNamed input}, root ≤ input → input.Affords 2 depth →
      Settles root (arguments depth afterNamed input) := by
  induction depth with
  | zero =>
    exact ⟨fun _ affords => absurd rfl affords.pos, fun _ affords => absurd rfl affords.pos,
      fun _ affords => absurd rfl affords.pos⟩
  | succ depth ih =>
    obtain ⟨expressionIH, callIH, argumentsIH⟩ := ih
    refine ⟨?_, ?_, ?_⟩
    · intro input reach affords
      have start := reach.trans (Input.le_skipBlank input)
      rw [expression]
      split
      · rename_i opened opens
        have inside := start.trans (Input.le_of_eat? opens)
        have enough := affords.below.reached (Input.le_skipBlank _)
        apply (callIH inside (enough.passed (Input.lt_of_eat? opens) (by omega))).bind
        rintro ⟨found, behind⟩ called
        have order := ((reads_invocation depth).2.1 called).le
        exact (Settles.expect ((inside.trans order).trans (Input.le_skipBlank _)) _).bind
          fun closed closes => .ok _
      · split
        · exact settles_readString start
        · exact settles_readWord start
    · intro input reach affords
      rw [call]
      apply (expressionIH reach affords.below).bind
      rintro ⟨callee, behind⟩ called
      have order := lt_of_expression called
      exact (argumentsIH (reach.trans order.le) (affords.below.passed order (by omega))).bind
        (by rintro ⟨⟨params, pairs⟩, closed⟩ given; exact .ok _)
    · intro afterNamed input reach affords
      have start := reach.trans (Input.le_skipBlank input)
      have enough := affords.below.reached (Input.le_skipBlank input)
      rw [arguments]
      split
      · exact .fail start (by simp)
      split
      · exact .ok _
      split
      · rename_i name behind named
        have assigned := Input.lt_of_argumentName? named
        have value := start.trans assigned.le
        apply (expressionIH value (enough.passed assigned (by omega))).bind
        rintro ⟨found, next⟩ read
        have order := lt_of_expression read
        exact (argumentsIH (value.trans order.le)
          (enough.passed (assigned.trans order) (by omega))).bind fun _ given => .ok _
      · split
        · exact .fail start (by simp)
        · apply (expressionIH start enough).bind
          rintro ⟨found, next⟩ read
          have order := lt_of_expression read
          exact (argumentsIH (start.trans order.le) (enough.passed order (by omega))).bind
            fun _ given => .ok _

/-- An invocation and what closes it are read or have a fault in them. -/
private theorem settles_closed {α : Type} (token : List Char)
    (make : Call (Node Span) → Input → α) (reach : root ≤ input) (affords : input.Affords 2 depth) :
    Settles root (do
      let (call, behind) ← call depth input
      let closed ← behind.skipTilde.expect token
      return make call closed) := by
  apply ((settles_invocation depth).2.1 reach affords).bind
  rintro ⟨found, behind⟩ called
  have order := ((reads_invocation depth).2.1 called).le
  exact (Settles.expect ((reach.trans order).trans (Input.le_skipTilde _)) _).bind
    fun closed closes => .ok _

theorem settles_readMustache {start : Input} (reach : root ≤ input)
    (affords : input.Affords 2 depth) : Settles root (readMustache depth start input) := by
  unfold readMustache
  cases third : input.eat? ['{'] with
  | none =>
    have order := Input.le_skipTilde input
    exact settles_closed closeBraces
      (fun call closed => (Node.between start closed (.mustache call false), closed))
      (reach.trans order) (affords.reached order)
  | some within =>
    have order := (Input.le_of_eat? third).trans (Input.le_skipTilde within)
    exact settles_closed ('}' :: closeBraces)
      (fun call closed => (Node.between start closed (.mustache call true), closed))
      (reach.trans order) (affords.reached order)

theorem settles_readModifier {start : Input} (reach : root ≤ input)
    (affords : input.Affords 2 depth) : Settles root (readModifier depth start input) := by
  have order := Input.le_skipTilde input
  exact settles_closed closeBraces
    (fun call closed => (Node.between start closed (.modifier call), closed))
    (reach.trans order) (affords.reached order)

theorem settles_readBlockTag (reach : root ≤ input) (affords : input.Affords 2 depth) :
    Settles root (readBlockTag depth input) := by
  unfold readBlockTag
  apply ((settles_invocation depth).2.1 reach affords).bind
  rintro ⟨found, behind⟩ called
  have order := ((reads_invocation depth).2.1 called).le.trans (Input.le_skipBlank behind)
  simp only
  cases declared : behind.skipBlank.blockParams?.getD ([], behind.skipBlank) with
  | mk names next =>
    have later := (Input.le_of_declared declared).trans (Input.le_skipTilde next)
    exact (Settles.expect ((reach.trans order).trans later) _).bind fun closed closes => .ok _

/-! ## Start tags -/

theorem settles_valuePieces {opening : Input} {quote : Char} (reached : root ≤ opening)
    (reach : root ≤ input) (affords : input.Affords 1 depth) :
    Settles root (valuePieces opening quote depth input) := by
  induction depth generalizing input with
  | zero => exact absurd rfl affords.pos
  | succ depth ih =>
    rw [valuePieces]
    cases upTo : input.takeUntil (Input.endsPiece quote) with
    | mk chars stop =>
      have text := Input.le_of_takeUntil upTo
      simp only
      split
      · exact .fail reached (by simp)
      rename_i more
      split
      · exact .ok _
      rename_i open_
      obtain ⟨opened, opens⟩ := eat?_openBraces_of_piece upTo (by simpa using more) open_
      have braces := text.trans_lt (Input.lt_of_eat? opens)
      rw [Input.skipOptional, opens, Option.getD_some]
      apply (settles_readMustache (reach.trans braces.le)
        (affords.below.passed braces (by omega))).bind
      rintro ⟨node, behind⟩ invoked
      obtain ⟨call, trusting, -, reads⟩ := reads_mustache invoked
      have order := braces.trans_le reads.le
      exact (ih (reach.trans order.le) (affords.below.passed order (by omega))).bind
        (by rintro ⟨pieces, closed⟩ rest; exact .ok _)

theorem settles_readValue (reach : root ≤ input) (affords : input.Affords 0 depth) :
    Settles root (readValue depth input) := by
  unfold readValue
  split
  · rename_i opened opens
    exact settles_readMustache (reach.trans (Input.le_of_eat? opens))
      (affords.passed (Input.lt_of_eat? opens) (by omega))
  split
  · rename_i quote quoted
    obtain ⟨rest, ahead, -⟩ := quoteAhead_eq_some.mp quoted
    have order := Input.lt_skipOptional_of_head ahead
    exact (settles_valuePieces reach (reach.trans order.le) (affords.passed order (by omega))).bind
      (by rintro ⟨pieces, closed⟩ inside; exact .ok _)
  split
  · exact .ok _
  · exact .fail reach (by simp)

theorem settles_readAttribute (reach : root ≤ input) (affords : input.Affords 0 depth) :
    Settles root (readAttribute depth input) := by
  unfold readAttribute
  split
  · exact .fail reach (by simp)
  rename_i name behind named
  split
  · exact .ok _
  · rename_i equals found
    have order := (Input.le_of_takeSome? named).trans (Input.le_of_eat? found)
    exact (settles_readValue (reach.trans order) (affords.reached order)).bind
      (by rintro ⟨value, closed⟩ assigned; exact .ok _)

private theorem settles_readMustacheComment {isLong : Bool} (reach : root ≤ input) :
    Settles root (readMustacheComment input isLong opened) := by
  unfold readMustacheComment
  split
  · exact .ok _
  · exact .fail reach (by simp)

theorem settles_tagContent {opening : Input} {tag : String} (reached : root ≤ opening)
    (reach : root ≤ input) (affords : input.Affords 1 depth) :
    Settles root (tagContent opening tag depth input) := by
  induction depth generalizing input with
  | zero => exact absurd rfl affords.pos
  | succ depth ih =>
    have start := reach.trans (Input.le_skipBlank input)
    have enough := affords.below.reached (Input.le_skipBlank input)
    -- Whatever is read first, the rest of the tag is behind it.
    have rest {next : Input} (order : input.skipBlank < next)
        {finish : TagContent × Input → Except Failure (TagContent × Input)}
        (ends : ∀ content closed, ∃ made, finish (content, closed) = .ok made) :
        Settles root (tagContent opening tag depth next >>= finish) := by
      apply (ih (start.trans order.le) (enough.passed order (by omega))).bind
      rintro ⟨content, closed⟩ others
      obtain ⟨made, same⟩ := ends content closed
      rw [same]
      exact .ok made
    rw [tagContent]
    split
    · exact .fail reached (by simp)
    split
    · exact .ok _
    split
    · exact .ok _
    split
    · rename_i isLong opened opens
      apply (settles_readMustacheComment start).bind
      rintro ⟨node, behind⟩ comment
      exact rest ((Input.lt_of_commentOpen? opens).trans_le (le_of_readMustacheComment comment))
        fun _ _ => ⟨_, rfl⟩
    split
    · rename_i opened opens
      have braces := Input.lt_of_eat? opens
      apply (settles_readModifier (start.trans braces.le) (enough.passed braces (by omega))).bind
      rintro ⟨node, behind⟩ invoked
      obtain ⟨call, -, reads⟩ := reads_modifier invoked
      exact rest (braces.trans_le reads.le) fun _ _ => ⟨_, rfl⟩
    split
    · rename_i names behind declared
      exact rest (Input.lt_of_blockParams? declared) fun _ _ => ⟨_, rfl⟩
    · apply (settles_readAttribute start enough).bind
      rintro ⟨node, behind⟩ taken
      exact rest ((reads_attr taken).lt (by rintro ⟨⟩)) fun _ _ => ⟨_, rfl⟩

/-! ## Bodies -/

/-- A start tag is not empty, since it has an end. -/
private theorem Reads.lt_of_tagContent {content : TagContent}
    (reads : Reads depth .tagContent input (.content content) closed) : input < closed := by
  have start := Input.le_skipBlank input
  cases reads with
  | selfClosed more closes => exact start.trans_lt (Input.lt_of_eat? closes)
  | tagEnd more open_ closes => exact start.trans_lt (Input.lt_of_eat? closes)
  | tagComment stays opens comment rest =>
    exact start.trans_lt ((Input.lt_of_commentOpen? opens).trans_le
      ((le_of_readMustacheComment comment).trans rest.le))
  | tagModifier stays plain opens invoked rest =>
    exact start.trans_lt ((Input.lt_of_eat? opens).trans_le (invoked.le.trans rest.le))
  | tagParams stays plain bare declared rest =>
    exact start.trans_lt ((Input.lt_of_blockParams? declared).trans_le rest.le)
  | tagAttribute stays plain bare undeclared taken rest =>
    exact start.trans_lt ((taken.lt (by rintro ⟨⟩)).trans_le rest.le)

private theorem settles_readBlockClose {opening : Input} {name : Option String}
    (reached : root ≤ opening) (reach : root ≤ input) :
    Settles root (readBlockClose opening name input) := by
  unfold readBlockClose
  split
  · exact .fail reached (by simp)
  · split
    · exact .ok _
    · exact .fail reach (by simp)

private theorem settles_readElementClose {opening : Input} {tag : List Char}
    (reached : root ≤ opening) (reach : root ≤ input) :
    Settles root (readElementClose opening tag input) := by
  unfold readElementClose
  split
  · exact .fail reached (by simp)
  · rename_i behind closes
    exact .expect ((reach.trans (Input.le_of_eat? closes)).trans (Input.le_skipBlank _)) _

private theorem settles_readComment (reach : root ≤ input) :
    Settles root (readComment input opened) := by
  unfold readComment
  split
  · exact .ok _
  · exact .fail reach (by simp)

section Succ
variable {opening start : Input} {name : Option String} {tag : List Char}
variable {found : Call (Node Span)} {blockParams : List String}

private theorem settles_body_succ
    (bodyIH : ∀ {input}, root ≤ input → input.Affords 2 depth → Settles root (body depth input))
    (statementIH : ∀ {input}, root ≤ input → input.Affords 1 depth →
      Settles root (statement depth input))
    (reach : root ≤ input) (affords : input.Affords 2 (depth + 1)) :
    Settles root (body (depth + 1) input) := by
  rw [body]
  split
  · exact .ok _
  rename_i goesOn
  have more : input.atEnd = false := by
    simp only [Input.endsBody, Bool.or_eq_true, not_or] at goesOn
    simpa using goesOn.1.1.1
  apply (statementIH reach affords.below).bind
  rintro ⟨first, behind⟩ head
  have order : input < behind := ((reads_body depth).2.1 head).lt fun _ => more
  exact (bodyIH (reach.trans order.le) (affords.below.passed order (by omega))).bind
    fun _ rest => .ok _

private theorem settles_statement_succ
    (blockTailIH : ∀ {opening name start found blockParams input}, root ≤ opening → root ≤ input →
      input.Affords 3 depth →
      Settles root (blockTail depth opening name start found blockParams input))
    (elementIH : ∀ {start tag input}, root ≤ start → root ≤ input → input.Affords 2 depth →
      Settles root (element depth start tag input))
    (reach : root ≤ input) (affords : input.Affords 1 (depth + 1)) :
    Settles root (statement (depth + 1) input) := by
  rw [statement]
  split
  · exact settles_readMustacheComment reach
  split
  · rename_i opened opens
    have braces := Input.lt_of_eat? opens
    split
    · apply (Settles.expect ((reach.trans braces.le).trans (Input.le_skipTilde _)) _).bind
      intro within hash
      have inner := braces.trans_le ((Input.le_skipTilde _).trans
        (Input.le_of_eat? (Input.expect_eq_ok.mp hash)))
      apply (settles_readBlockTag (reach.trans inner.le)
        (affords.below.passed inner (by omega))).bind
      rintro ⟨⟨found, blockParams⟩, tagEnd⟩ tag
      have order := inner.trans_le (reads_blockTag tag).le
      exact blockTailIH reach (reach.trans order.le) (affords.below.passed order (by omega))
    · exact settles_readMustache (reach.trans braces.le)
        (affords.below.passed braces (by omega))
  split
  · exact settles_readComment reach
  split
  · rename_i tag named tagged
    obtain ⟨opened, opens, name⟩ := Option.bind_eq_some_iff.mp tagged
    have order := (Input.lt_of_eat? opens).trans_le (Input.le_of_tagName? name)
    exact elementIH reach (reach.trans order.le) (affords.below.passed order (by omega))
  · exact .ok _

private theorem settles_blockTail_succ
    (bodyIH : ∀ {input}, root ≤ input → input.Affords 2 depth → Settles root (body depth input))
    (blockTailIH : ∀ {opening name start found blockParams input}, root ≤ opening → root ≤ input →
      input.Affords 3 depth →
      Settles root (blockTail depth opening name start found blockParams input))
    (reached : root ≤ opening) (reach : root ≤ input) (affords : input.Affords 3 (depth + 1)) :
    Settles root (blockTail (depth + 1) opening name start found blockParams input) := by
  rw [blockTail]
  apply (bodyIH reach affords.below).bind
  rintro ⟨statements, stop⟩ program
  have order := ((reads_body depth).1 program).le
  have there := reach.trans order
  have enough := affords.below.reached order
  simp only
  split
  · exact (settles_readBlockClose reached there).bind fun _ closes => .ok _
  rename_i word otherwise
  have inner := (Input.lt_of_eatElse? otherwise).trans_le (Input.le_skipBlank word)
  split
  · apply (Settles.expect ((there.trans inner.le).trans (Input.le_skipTilde _)) _).bind
    intro within ends
    have further := inner.trans_le ((Input.le_skipTilde _).trans
      (Input.le_of_eat? (Input.expect_eq_ok.mp ends)))
    apply (bodyIH (there.trans further.le) (enough.passed further (by omega))).bind
    rintro ⟨others, behind⟩ inverse
    have last := (there.trans further.le).trans ((reads_body depth).1 inverse).le
    simp only
    split
    · exact .fail last (by simp)
    · exact (settles_readBlockClose reached last).bind fun _ closes => .ok _
  · apply (settles_readBlockTag (there.trans inner.le) (enough.passed inner (by omega))).bind
    rintro ⟨⟨nextCall, nextParams⟩, tagEnd⟩ tag
    have further := inner.trans_le (reads_blockTag tag).le
    exact (blockTailIH reached (there.trans further.le)
      (enough.passed further (by omega))).bind fun _ tail => .ok _

private theorem settles_element_succ
    (bodyIH : ∀ {input}, root ≤ input → input.Affords 2 depth → Settles root (body depth input))
    (reached : root ≤ start) (reach : root ≤ input) (affords : input.Affords 2 (depth + 1)) :
    Settles root (element (depth + 1) start tag input) := by
  rw [element]
  apply (settles_tagContent reached reach affords.below).bind
  rintro ⟨content, tagEnd⟩ startTag
  have order := (reads_tagContent startTag).lt_of_tagContent
  simp only
  split
  · exact .ok _
  · apply (bodyIH (reach.trans order.le) (affords.below.passed order (by omega))).bind
    rintro ⟨children, stop⟩ inside
    have last := (reach.trans order.le).trans ((reads_body depth).1 inside).le
    exact (settles_readElementClose reached last).bind fun _ closes => .ok _

end Succ

/-- Bodies, statements, the rests of blocks and elements are read or have a fault in them. -/
theorem settles_body (depth : Nat) :
    (∀ {input}, root ≤ input → input.Affords 2 depth → Settles root (body depth input)) ∧
    (∀ {input}, root ≤ input → input.Affords 1 depth → Settles root (statement depth input)) ∧
    (∀ {opening name start found blockParams input}, root ≤ opening → root ≤ input →
      input.Affords 3 depth →
      Settles root (blockTail depth opening name start found blockParams input)) ∧
    ∀ {start tag input}, root ≤ start → root ≤ input → input.Affords 2 depth →
      Settles root (element depth start tag input) := by
  induction depth with
  | zero =>
    exact ⟨fun _ affords => absurd rfl affords.pos, fun _ affords => absurd rfl affords.pos,
      fun _ _ affords => absurd rfl affords.pos, fun _ _ affords => absurd rfl affords.pos⟩
  | succ depth ih =>
    obtain ⟨bodyIH, statementIH, blockTailIH, elementIH⟩ := ih
    exact ⟨settles_body_succ bodyIH statementIH, settles_statement_succ blockTailIH elementIH,
      settles_blockTail_succ bodyIH blockTailIH, settles_element_succ bodyIH⟩

/-! ## Numerals -/

/-- A spelling is that of a number: digits, perhaps with a minus before them, perhaps with a point and
more digits behind them. -/
def Denotes (spelling : List Char) (value : Double) : Prop :=
  ∃ negative whole fraction, whole ≠ [] ∧
    (∀ c ∈ whole ++ fraction, Text.isDecimalDigit c = true) ∧
    spelling = (if negative then ['-'] else []) ++ whole ++
      (if fraction.isEmpty then [] else '.' :: fraction) ∧
    value = Double.ofDecimal negative (Text.digitsValue (whole ++ fraction)) (-fraction.length)

private theorem fraction_eq {chars : List Char} (read : input.fraction = (chars, behind)) :
    (∀ c ∈ chars, Text.isDecimalDigit c = true) ∧
      input.rest = (if chars.isEmpty then [] else '.' :: chars) ++ behind.rest := by
  unfold Input.fraction at read
  split at read
  · rename_i found taken
    subst read
    obtain ⟨point, pointed, digits⟩ := Option.bind_eq_some_iff.mp taken
    obtain ⟨run, filled⟩ := Input.takeSome?_eq_some.mp digits
    obtain ⟨rest, -, all, -⟩ := Input.takeWhile_eq.mp run
    refine ⟨all, ?_⟩
    rw [if_neg (by simpa using filled), (Input.eat?_eq_some.mp pointed).1, rest]
    rfl
  · cases read
    simp

private theorem skipOptional_minus (input : Input) :
    input.rest = (if input.sees ['-'] then ['-'] else []) ++ (input.skipOptional ['-']).rest := by
  unfold Input.sees Input.skipOptional
  cases minus : input.eat? ['-'] with
  | none => rfl
  | some behind => exact (Input.eat?_eq_some.mp minus).1

/-- A number is read from a numeral. -/
theorem denotes_of_number? {spelling : List Char} {value : Double}
    (read : input.number? = some ((spelling, value), behind)) : Denotes spelling value := by
  obtain ⟨numeral, source, length⟩ := Input.le_of_number? read
  simp only [Input.number?, bind, Option.bind_eq_some_iff, Prod.exists] at read
  obtain ⟨whole, wholeEnd, taken, ends⟩ := read
  obtain ⟨run, filled⟩ := Input.takeSome?_eq_some.mp taken
  obtain ⟨rest, -, all, -⟩ := Input.takeWhile_eq.mp run
  cases fractional : wholeEnd.fraction with
  | mk fraction last =>
    obtain ⟨digits, further⟩ := fraction_eq fractional
    rw [fractional] at ends
    simp only at ends
    split at ends
    swap
    · cases ends
    cases ends
    refine ⟨input.sees ['-'], whole, fraction, filled, ?_, ?_, rfl⟩
    · intro c member
      exact (List.mem_append.mp member).elim (all c) (digits c)
    · have parts := skipOptional_minus input
      rw [rest, further, source, ← List.append_assoc, ← List.append_assoc] at parts
      rw [source, length, Nat.add_sub_cancel_left, List.take_left]
      exact List.append_cancel_right parts

/-! ## Texts -/

/-- How the parsing of a text ends: in a template that spans the text or in one fault at a place of
the text. On the way every offset is on a line of the text, all named arguments that are held together
have a place, and what is read as a number is a numeral. -/
structure Ends (text : String) : Prop where
  outcome : (∃ statements, parse text = .ok
      (.mk (some ⟨⟨0, 0⟩, Text.positionOf (Text.lineStarts text.toList) text.toList.length⟩)
        (.template statements []))) ∨
    ∃ fault offset, fault ≠ .nestedTooDeep ∧ offset ≤ text.toList.length ∧
      parse text = .error ⟨fault, Text.positionOf (Text.lineStarts text.toList) offset⟩
  lined (offset : Nat) :
    Text.lineOf (Text.lineStarts text.toList) offset < (Text.lineStarts text.toList).length ∧
      Text.lineStart (Text.lineStarts text.toList)
        (Text.lineOf (Text.lineStarts text.toList) offset) ≤ offset
  held {depth : Nat} {afterNamed : Bool} {input behind : Input} {params pairs : List (Node Span)}
    (reach : .ofText text.toList ≤ input)
    (given : arguments depth afterNamed input = .ok ((params, pairs), behind)) :
    ∀ pair ∈ pairs, ∃ place, pair.range = some place
  numeral {input behind : Input} {spelling : List Char} {value : Double}
    (reach : .ofText text.toList ≤ input)
    (read : input.number? = some ((spelling, value), behind)) : Denotes spelling value

theorem settles_parseSpans (chars : List Char) : Settles (.ofText chars) (parseSpans chars) := by
  have enough : (Input.ofText chars).Affords 2 (depthFor chars.length) := by
    simp only [Input.Affords, Input.ofText, depthFor]
    omega
  apply ((settles_body _).1 (le_refl _) enough).bind
  rintro ⟨statements, stop⟩ reads
  simp only
  split
  · exact .ok _
  · exact .fail ((reads_body _).1 reads).le (by simp)

private theorem positionOf_zero (chars : List Char) :
    Text.positionOf (Text.lineStarts chars) 0 = ⟨0, 0⟩ := by
  have whole : ¬ Text.Joint [] chars := by
    rintro ⟨last, -⟩
    cases last
  exact Text.positionOf_append whole (Nat.zero_le _) rfl

/-- Parsing ends in a tree or in one well-placed fault. -/
theorem parse_ends (text : String) : Ends text := by
  refine ⟨?_, fun offset => ⟨Text.lineOf_lt _ offset, Text.lineStart_lineOf_le _ offset⟩, ?_, ?_⟩
  · have settles := settles_parseSpans text.toList
    cases parsed : parseSpans text.toList with
    | ok tree =>
      left
      obtain ⟨statements, stop, reads, ends, rfl⟩ := parseSpans_eq_ok.mp parsed
      refine ⟨statements.map (Node.mapRange (Text.rangeOf (Text.lineStarts text.toList))), ?_⟩
      simp only [parse, parsed, Node.between, Node.mapRange_mk, Layer.map, Option.map_some,
        Text.rangeOf, Input.offset_of_atEnd reads.le ends]
      rw [show (Input.ofText text.toList).offset = 0 from rfl, positionOf_zero]
    | error failure =>
      right
      obtain ⟨shallow, place, reach, offset⟩ := settles failure parsed
      obtain ⟨before, source, here⟩ := Input.source_of_reach reach
      refine ⟨failure.fault, failure.offset, shallow, ?_, ?_⟩
      · rw [offset, here, source, List.length_append]
        exact Nat.le_add_right _ _
      · simp only [parse, parsed]
  · intro depth afterNamed input behind params pairs reach given
    exact ((reads_invocation depth).2.2 given).placed.2
  · intro input behind spelling value reach read
    exact denotes_of_number? read

end EmberAssist.Template
