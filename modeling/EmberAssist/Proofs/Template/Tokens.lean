import EmberAssist.Settings
import EmberAssist.Proofs.Template.Origin
import EmberAssist.Proofs.Template.SimulationBlocks

/-! The tokens that are typed into: what a mustache or a subexpression invokes, and strings. Nothing
around such a token can be mistaken once the placeholder stands in it. -/
namespace EmberAssist.Template

open Text

variable {depth : Nat} {yield : Yield} {node : Node Span}
variable {input opened behind closed moved : Input} {chars word after : List Char}

/-! ## What words and strings were read from -/

/-- A path was read as a word. -/
theorem Reads.of_path (reads : Reads depth .expression input (.node node) closed)
    (path : (pathSpelling? node.layer).isSome = true) :
    ∃ shallower word, depth = shallower + 1 ∧ input.skipBlank.eat? ['('] = none ∧
      quoteAhead input.skipBlank = none ∧ input.skipBlank.number? = none ∧
      input.skipBlank.takeSome? Input.isPathChar = some (word, closed) ∧
      node = .between input.skipBlank closed (wordLayer word) := by
  cases reads with
  | subExpression opens invoked closes => cases path
  | string plain quoted read =>
    obtain ⟨value, -, rfl⟩ := readString_eq_ok.mp read
    cases path
  | word plain bare read =>
    rcases readWord_eq_ok.mp read with ⟨number, -, rfl⟩ | ⟨uncounted, word, taken, rfl⟩
    · cases path
    · exact ⟨_, word, rfl, plain, bare, uncounted, taken, rfl⟩

/-- A string was read from its quote on. -/
theorem Reads.of_string (reads : Reads depth .expression input (.node node) closed)
    (string : (stringValue? node.layer).isSome = true) :
    ∃ shallower quote value, depth = shallower + 1 ∧ input.skipBlank.eat? ['('] = none ∧
      quoteAhead input.skipBlank = some quote ∧
      Input.stringTail? quote (input.skipBlank.offset + 1) (input.skipBlank.rest.drop 1) =
        some (value, closed) ∧
      node = .between input.skipBlank closed
        (.stringLiteral (String.ofList value) (String.ofList value)) := by
  cases reads with
  | subExpression opens invoked closes => cases string
  | string plain quoted read =>
    obtain ⟨value, tail, rfl⟩ := readString_eq_ok.mp read
    exact ⟨_, _, value, rfl, plain, quoted, tail, rfl⟩
  | word plain bare read =>
    rcases readWord_eq_ok.mp read with ⟨number, -, rfl⟩ | ⟨uncounted, word, taken, rfl⟩
    · cases string
    · simp only [Node.between, Node.layer, wordLayer] at string
      split_ifs at string <;> cases string

/-! ## What stands behind a callee -/

theorem Input.skipBlank_of_head (solid : ∀ c ∈ input.rest.head?, isBlank c = false) :
    input.skipBlank = input := by
  have run : input.takeWhile isBlank = ([], input) :=
    Input.takeWhile_eq.mpr ⟨rfl, rfl, by simp, solid⟩
  rw [skipBlank, skipWhile, run]

theorem Input.skipBlank_skipBlank (input : Input) : input.skipBlank.skipBlank = input.skipBlank :=
  skipBlank_of_head (takeWhile_eq.mp (Eq.refl (input.takeWhile isBlank))).2.2.2

theorem head_of_takeSome? {p : Char → Bool} {word : List Char}
    (taken : input.takeSome? p = some (word, behind)) :
    ∃ c, input.rest.head? = some c ∧ p c = true := by
  obtain ⟨run, filled⟩ := Input.takeSome?_eq_some.mp taken
  obtain ⟨rest, -, all, -⟩ := Input.takeWhile_eq.mp run
  cases word with
  | nil => exact absurd rfl filled
  | cons c word => exact ⟨c, by rw [rest]; rfl, all c (by simp)⟩

theorem head_of_number? {number : List Char × Double}
    (counted : input.number? = some (number, behind)) :
    ∃ c, input.rest.head? = some c ∧ (c = '-' ∨ isDecimalDigit c = true) := by
  simp only [Input.number?, bind, Option.bind_eq_some_iff, Prod.exists] at counted
  obtain ⟨whole, wholeEnd, taken, -⟩ := counted
  unfold Input.skipOptional at taken
  cases signed : input.eat? ['-'] with
  | none =>
    rw [signed] at taken
    obtain ⟨c, head, digit⟩ := head_of_takeSome? taken
    exact ⟨c, head, .inr digit⟩
  | some unsigned =>
    exact ⟨'-', by rw [(Input.eat?_eq_some.mp signed).1]; rfl, .inl rfl⟩

/-- An expression begins neither with a sign of equality nor with a bar. -/
private theorem Reads.head_of_expression (reads : Reads depth .expression input yield closed)
    (c : Char) (head : input.skipBlank.rest.head? = some c) : c ≠ '=' ∧ c ≠ '|' := by
  have of_class {p : Char → Bool} (found : ∃ d, input.skipBlank.rest.head? = some d ∧ p d = true)
      (equals : p '=' = false) (bar : p '|' = false) : c ≠ '=' ∧ c ≠ '|' := by
    obtain ⟨d, here, holds⟩ := found
    cases here.symm.trans head
    constructor
    · rintro rfl
      rw [equals] at holds
      cases holds
    · rintro rfl
      rw [bar] at holds
      cases holds
  cases reads with
  | subExpression opens invoked closes =>
    exact of_class (p := (· == '(')) ⟨'(', by rw [(Input.eat?_eq_some.mp opens).1]; rfl, rfl⟩ rfl rfl
  | string plain quoted read =>
    refine of_class (p := fun c => c == '\'' || c == '"') ⟨c, head, ?_⟩ rfl rfl
    obtain ⟨rest, spelled, single⟩ := quoteAhead_eq_some.mp quoted
    rw [spelled] at head
    cases head
    simpa using single
  | word plain bare read =>
    rcases readWord_eq_ok.mp read with ⟨number, counted, -⟩ | ⟨-, word, taken, -⟩
    · obtain ⟨d, here, starts⟩ := head_of_number? counted
      exact of_class (p := fun c => c == '-' || isDecimalDigit c)
        ⟨d, here, by simpa using starts⟩ (by decide) (by decide)
    · exact of_class (head_of_takeSome? taken) (by decide) (by decide)

/-- Arguments begin neither with a sign of equality nor with a bar. -/
theorem Reads.head_of_arguments {afterNamed : Bool}
    (reads : Reads depth (.arguments afterNamed) input yield closed) (c : Char)
    (head : input.skipBlank.rest.head? = some c) : c ≠ '=' ∧ c ≠ '|' := by
  cases reads with
  | noArguments more ends =>
    generalize input.skipBlank = start at head ends
    obtain ⟨offset, rest⟩ := start
    cases rest with
    | nil => cases head
    | cons d rest =>
      cases head
      constructor
      all_goals
        rintro rfl
        simp [Input.seesCallEnd, Input.eatClose?, Input.skipOptional, Input.eat?, Input.sees,
          Input.seesBlockParams, closeBraces] at ends
  | named goesOn named assigned rest =>
    simp only [Input.argumentName?, bind, Option.bind_eq_some_iff, Prod.exists] at named
    obtain ⟨name, after, taken, -⟩ := named
    obtain ⟨d, here, path⟩ := head_of_takeSome? taken
    cases here.symm.trans head
    constructor
    all_goals
      rintro rfl
      exact absurd path (by decide)
  | positional goesOn unnamed given rest =>
    exact given.head_of_expression c (by rwa [Input.skipBlank_skipBlank])

/-! ## Names -/

theorem Input.isBlank_of_path {c : Char} (path : isPathChar c = true) : isBlank c = false := by
  simp only [isPathChar, Bool.and_eq_true, Bool.not_eq_true'] at path
  exact path.1

private theorem takeSome?_of_head {p : Char → Bool} {c : Char} {rest : List Char} {offset : Nat}
    (differ : p c = false) : Input.takeSome? p ⟨offset, c :: rest⟩ = none := by
  have run : Input.takeWhile p ⟨offset, c :: rest⟩ = ([], ⟨offset, c :: rest⟩) :=
    Input.takeWhile_eq.mpr ⟨rfl, rfl, by simp, by simpa using differ⟩
  rw [Input.takeSome?, run]

/-- A name of more than two characters does not begin a list of block parameters. -/
private theorem bare_of_long {offset : Nat} (long : 2 < word.length)
    (named : ∀ c ∈ word, Input.isPathChar c = true) :
    Input.seesBlockParams ⟨offset, word ++ after⟩ = false := by
  match word, long with
  | a :: b :: c :: rest, _ =>
    have solid := Input.isBlank_of_path (named c (by simp))
    rw [Input.seesBlockParams_eq]
    by_cases spelled : 'a' = a ∧ 's' = b
    · obtain ⟨rfl, rfl⟩ := spelled
      simp [Input.bar?, Input.eat?, takeSome?_of_head solid]
    · rcases not_and_or.mp spelled with differ | differ
      · simp [Input.bar?, Input.eat?, differ]
      · by_cases first : 'a' = a <;> simp [Input.bar?, Input.eat?, differ, first]

/-- A name before arguments does not begin a list of block parameters. -/
theorem Reads.bare_of_arguments {afterNamed : Bool}
    (given : Reads depth (.arguments afterNamed) behind yield closed)
    (taken : input.takeSome? Input.isPathChar = some (word, behind)) :
    input.seesBlockParams = false := by
  rw [Input.seesBlockParams_eq, Option.isSome_eq_false_iff, Option.isNone_iff_eq_none]
  by_contra seen
  obtain ⟨opened, opens⟩ := Option.ne_none_iff_exists'.mp seen
  obtain ⟨named, spelled, rest⟩ := Option.bind_eq_some_iff.mp opens
  obtain ⟨⟨blanks, spaced⟩, blank, bar⟩ := Option.bind_eq_some_iff.mp rest
  obtain ⟨run, filled⟩ := Input.takeSome?_eq_some.mp blank
  obtain ⟨between, offset, solid, stops⟩ := Input.takeWhile_eq.mp run
  -- The blank ends the name, so that the name is no longer than the word before the bar.
  have whole : input.takeWhile Input.isPathChar = (['a', 's'], named) := by
    refine Input.takeWhile_eq.mpr ⟨(Input.eat?_eq_some.mp spelled).1,
      (Input.eat?_eq_some.mp spelled).2, List.all_eq_true.mp (by decide), fun c next => ?_⟩
    cases blanks with
    | nil => exact absurd rfl filled
    | cons d blanks =>
      rw [between] at next
      cases next
      simp [Input.isPathChar, solid c (by simp)]
  have same := (Input.takeSome?_eq_some.mp taken).1.symm.trans whole
  obtain ⟨rfl, rfl⟩ := Prod.mk.inj same
  have arrived : behind.skipBlank = spaced := by rw [Input.skipBlank, Input.skipWhile, run]
  have head : behind.skipBlank.rest.head? = some '|' := by
    rw [arrived, (Input.eat?_eq_some.mp bar).1]
    rfl
  exact (given.head_of_arguments '|' head).2 rfl

private theorem exists_cons_of_any {p : Char → Bool} (found : chars.head?.any p = true) :
    ∃ c rest, chars = c :: rest ∧ p c = true := by
  cases chars with
  | nil => cases found
  | cons c rest => exact ⟨c, rest, rfl, found⟩

theorem Input.endsElse_of_path {c : Char} (path : Input.isPathChar c = true) :
    Input.endsElse c = false := by
  have solid := Input.isBlank_of_path path
  have differ {d : Char} (refused : Input.isPathChar d = false) : (c == d) = false := by
    rw [beq_eq_false_iff_ne]
    rintro rfl
    rw [refused] at path
    cases path
  simp [Input.endsElse, solid, beq_eq_false_iff_ne.mp (differ (d := '}') (by decide)),
    beq_eq_false_iff_ne.mp (differ (d := '~') (by decide))]

/-- A name of more than four characters that begins like an else is no else. -/
private theorem endsElse_of_long {offset : Nat} (long : 4 < word.length)
    (named : ∀ c ∈ word, Input.isPathChar c = true)
    (spelled : Input.eat? ['e', 'l', 's', 'e'] ⟨offset, word ++ after⟩ = some behind) :
    behind.rest.head?.any Input.endsElse = false := by
  obtain ⟨rest, -⟩ := Input.eat?_eq_some.mp spelled
  have first : ['e', 'l', 's', 'e'] <+: word :=
    List.prefix_of_prefix_length_le ⟨_, rest.symm⟩ ⟨_, rfl⟩ (Nat.le_of_lt long)
  obtain ⟨others, rfl⟩ := first
  rw [List.append_assoc] at rest
  cases others with
  | nil => exact absurd long (by simp)
  | cons c others =>
    rw [← List.append_cancel_left rest, List.cons_append, List.head?_cons, Option.any_some]
    exact Input.endsElse_of_path (named c (by simp))

/-- A name is the name of an argument only before a sign of equality. -/
private theorem argumentName?_of_free {offset : Nat} (filled : word ≠ [])
    (named : ∀ c ∈ word, Input.isPathChar c = true)
    (ends : ∀ c ∈ after.head?, Input.isPathChar c = false ∧ c ≠ '=') :
    Input.argumentName? ⟨offset, word ++ after⟩ = none := by
  have run : Input.takeWhile Input.isPathChar ⟨offset, word ++ after⟩ =
      (word, ⟨offset + word.length, after⟩) :=
    Input.takeWhile_eq.mpr ⟨rfl, rfl, named, fun c next => (ends c next).1⟩
  have taken := Input.takeSome?_eq_some.mpr ⟨run, filled⟩
  simp only [Input.argumentName?, bind, taken, Option.bind_some, Option.bind_eq_none_iff]
  intro equals read
  obtain ⟨rest, -⟩ := Input.eat?_eq_some.mp read
  exact absurd rfl (ends '=' (by rw [show after = _ from rest]; rfl)).2

namespace Typing
variable {t : Typing}

theorem named_retyped (named : ∀ c ∈ t.token, Input.isPathChar c = true)
    (plain : ∀ c ∈ t.typed, Input.isPathChar c = true) :
    ∀ c ∈ t.retyped, Input.isPathChar c = true := by
  intro c member
  simp only [retyped, List.mem_append] at member
  rcases member with (member | member) | member
  · exact named c (List.mem_append_left _ member)
  · exact plain c member
  · exact named c (List.mem_append_right _ member)

/-- Typing into a name or before it leaves what begins like a name. -/
private theorem alike_of_names (begins : t.token.head?.any beginsName = true)
    (typed : t.typed.head?.any beginsName = true) :
    ∃ a b rest others, t.token = a :: rest ∧ t.retyped = b :: others ∧ Alike a b := by
  obtain ⟨a, token, first⟩ := exists_cons_of_any begins
  obtain ⟨d, later, second⟩ := exists_cons_of_any typed
  cases left : t.left with
  | nil =>
    exact ⟨a, d, token, later ++ t.right, first.1, by rw [retyped, left, second.1]; rfl,
      .name first.2 second.2⟩
  | cons b others =>
    have spelled := first.1
    rw [Typing.token, left] at spelled
    obtain ⟨rfl, -⟩ := List.cons.inj spelled
    exact ⟨b, b, token, others ++ t.typed ++ t.right, first.1, by rw [retyped, left]; rfl,
      .name first.2 first.2⟩

/-- Typing more of a name, of which enough is typed not to be taken for another word. -/
theorem Quiet.of_name (begins : t.token.head?.any beginsName = true)
    (typed : t.typed.head?.any beginsName = true) (long : 4 < t.typed.length)
    (named : ∀ c ∈ t.token, Input.isPathChar c = true)
    (plain : ∀ c ∈ t.typed, Input.isPathChar c = true)
    (apart : ∀ c ∈ t.before.getLast?, Input.isPathChar c = false)
    (ends : ∀ c ∈ t.after.head?, Input.isPathChar c = false ∧ c ≠ '=')
    (bare : Input.seesBlockParams ⟨t.start, t.token ++ t.after⟩ = false) : t.Quiet := by
  have all := named_retyped named plain
  have longer : 4 < t.retyped.length := by
    rw [length_retyped]
    omega
  refine ⟨alike_of_names begins typed, ?_, plain, ?_, fun word => endsElse_of_long longer all, bare,
    bare_of_long (by omega) all, argumentName?_of_free ?_ all ends⟩
  · obtain ⟨d, later, second⟩ := exists_cons_of_any typed
    exact ⟨d, later, second.1⟩
  · intro c last path
    rw [apart c last] at path
    cases path
  · intro empty
    simp [empty] at longer

/-- Typing between the quotes of a string. -/
theorem Quiet.of_string {quote : Char} {left : List Char} (quoted : quote = '\'' ∨ quote = '"')
    (opens : t.left = quote :: left) (filled : t.typed ≠ [])
    (plain : ∀ c ∈ t.typed, Input.isPathChar c = true) : t.Quiet := by
  have token : t.token = quote :: (left ++ t.right) := by rw [Typing.token, opens]; rfl
  have retyped : t.retyped = quote :: (left ++ t.typed ++ t.right) := by
    rw [Typing.retyped, opens]
    rfl
  have refused : Input.isPathChar quote = false := by rcases quoted with rfl | rfl <;> decide
  have bare (offset : Nat) (rest : List Char) :
      Input.seesBlockParams ⟨offset, quote :: rest⟩ = false := by
    rcases quoted with rfl | rfl <;> simp [Input.seesBlockParams, Input.eat?]
  refine ⟨⟨quote, quote, _, _, token, retyped, .single quoted⟩, List.exists_cons_of_ne_nil filled,
    plain, ?_, ?_, ?_, ?_, ?_⟩
  · intro c last path d head
    rw [retyped] at head
    cases head
    exact refused
  · intro word spelled
    rw [retyped] at spelled
    rcases quoted with rfl | rfl <;> simp [Input.eat?] at spelled
  · rw [token]
    exact bare _ _
  · rw [retyped]
    exact bare _ _
  · rw [retyped]
    simp [Input.argumentName?, takeSome?_of_head refused]

/-! ## Targets -/

theorem shiftSpan_span (quiet : t.Quiet) :
    t.shiftSpan t.span = ⟨t.start, t.stop + t.typed.length⟩ := by
  have nonempty := quiet.start_lt_stop
  have first : t.shift t.start = t.start := if_pos (le_refl _)
  have last : t.shift t.stop = t.stop + t.typed.length := if_neg (by omega)
  exact congrArg₂ Span.mk first last

private theorem spelling?_of_path {layer : Layer (Node Span)}
    (path : (pathSpelling? layer).isSome = true) : (spelling? layer).isSome = true := by
  cases layer with
  | path => rfl
  | _ => cases path

/-- What a mustache or a subexpression invokes, typed into as a name. -/
def nameTarget (quiet : t.Quiet) (holder : Node Span)
    (invoked : invoked? holder.layer = some (.mk (some t.span) (wordLayer t.token)))
    (spelled : (pathSpelling? (wordLayer t.token : Layer (Node Span))).isSome = true)
    (respelled : (pathSpelling? (wordLayer t.retyped : Layer (Node Span))).isSome = true)
    (named : ∀ c ∈ t.retyped, Input.isPathChar c = true) : t.Target where
  token := .mk (some t.span) (wordLayer t.token)
  holder := holder
  fresh := wordLayer t.retyped
  quiet := quiet
  placed := rfl
  spelled := spelling?_of_path spelled
  respelled := spelling?_of_path respelled
  held := .inl invoked
  rereads := by
    intro depth input moved closed reads carried
    obtain ⟨depth, word, rfl, plain, bare, uncounted, taken, same⟩ := reads.of_path spelled
    have spaced := carried.skipBlank quiet
    obtain ⟨place, -⟩ := Node.mk.inj same
    obtain ⟨begins, ends⟩ := Span.mk.inj (Option.some.inj place)
    obtain ⟨old, new⟩ := spaced.at_start quiet begins.symm
    obtain ⟨run, filled⟩ := Input.takeSome?_eq_some.mp taken
    obtain ⟨rest, offset, -, stops⟩ := Input.takeWhile_eq.mp run
    have after : closed.rest = t.after := by
      rw [old] at rest offset
      refine (List.append_inj rest ?_).2.symm
      simp only [stop_eq] at ends offset
      omega
    have last : t.Carried closed ⟨closed.offset + t.typed.length, closed.rest⟩ :=
      .behind (by omega)
    refine ⟨_, ?_, last⟩
    have read : moved.skipBlank.takeSome? Input.isPathChar =
        some (t.retyped, ⟨closed.offset + t.typed.length, closed.rest⟩) := by
      have nonempty := quiet.start_lt_stop
      refine Input.takeSome?_eq_some.mpr ⟨Input.takeWhile_eq.mpr ⟨?_, ?_, named, stops⟩, ?_⟩
      · rw [new, after]
      · simp only [new, length_retyped]
        simp only [stop_eq] at ends
        omega
      · intro empty
        have := length_retyped (t := t)
        rw [empty, List.length_nil] at this
        simp only [stop_eq] at nonempty
        omega
    have again : t.retype (wordLayer t.retyped) (.mk (some t.span) (wordLayer t.token)) =
        .between moved.skipBlank ⟨closed.offset + t.typed.length, closed.rest⟩
          (wordLayer t.retyped) := by
      rw [retype_mk, Layer.map_wordLayer, respell, if_pos ⟨rfl, spelling?_of_path spelled⟩,
        Option.map_some, shiftSpan_span quiet, new, ends]
      rfl
    rw [again]
    exact .word (none_of_rel (spaced.eat? quiet (by decide)) plain)
      (by rw [← spaced.quoteAhead quiet, bare]) (readWord_eq_ok.mpr (.inr
        ⟨none_of_rel (spaced.number? quiet) uncounted, _, read, rfl⟩))

/-- A string, typed into between its quotes. -/
def stringTarget (quiet : t.Quiet) {quote : Char} {raw fresh value typed : List Char}
    (quoted : quote = '\'' ∨ quote = '"') (spelled : t.token = quote :: (raw ++ [quote]))
    (respelled : t.retyped = quote :: (fresh ++ [quote]))
    (read : Input.unescape quote raw = some value)
    (reread : Input.unescape quote fresh = some typed) : t.Target where
  token := .mk (some t.span) (.stringLiteral (String.ofList value) (String.ofList value))
  holder := .mk (some t.span) (.stringLiteral (String.ofList value) (String.ofList value))
  fresh := .stringLiteral (String.ofList typed) (String.ofList typed)
  quiet := quiet
  placed := rfl
  spelled := rfl
  respelled := rfl
  held := .inr ⟨rfl, rfl, rfl⟩
  rereads := by
    intro depth input moved closed reads carried
    obtain ⟨depth, mark, found, rfl, plain, ahead, tail, same⟩ := reads.of_string rfl
    have spaced := carried.skipBlank quiet
    obtain ⟨place, -⟩ := Node.mk.inj same
    obtain ⟨begins, ends⟩ := Span.mk.inj (Option.some.inj place)
    obtain ⟨old, new⟩ := spaced.at_start quiet begins.symm
    have solid : quote ≠ '\\' := by rcases quoted with rfl | rfl <;> decide
    obtain rfl : mark = quote := by
      obtain ⟨rest, first, -⟩ := quoteAhead_eq_some.mp ahead
      rw [old, spelled] at first
      exact (List.cons.inj first).1.symm
    obtain ⟨inside, rest, offset, -⟩ := (Input.stringTail?_eq_some solid).mp tail
    have after : closed.rest = t.after := by
      rw [old, spelled] at rest
      simp only [List.cons_append, List.drop_one, List.tail_cons, List.append_assoc] at rest
      refine (List.cons.inj (List.append_inj rest ?_).2).2.symm
      have length := congrArg List.length spelled
      simp only [List.length_cons, List.length_append, List.length_nil, stop_eq] at length ends
      rw [← begins] at offset
      omega
    have last : t.Carried closed ⟨closed.offset + t.typed.length, closed.rest⟩ :=
      .behind (by omega)
    refine ⟨_, ?_, last⟩
    have again : Input.stringTail? mark (moved.skipBlank.offset + 1) (moved.skipBlank.rest.drop 1) =
        some (typed, ⟨closed.offset + t.typed.length, closed.rest⟩) := by
      refine (Input.stringTail?_eq_some solid).mpr ⟨fresh, ?_, ?_, reread⟩
      · rw [new, respelled, after]
        simp
      · have length := congrArg List.length respelled
        rw [length_retyped] at length
        simp only [List.length_cons, List.length_append, List.length_nil, stop_eq] at length ends
        rw [new]
        simp only
        omega
    have node : t.retype (.stringLiteral (String.ofList typed) (String.ofList typed))
        (.mk (some t.span) (.stringLiteral (String.ofList value) (String.ofList value))) =
        .between moved.skipBlank ⟨closed.offset + t.typed.length, closed.rest⟩
          (.stringLiteral (String.ofList typed) (String.ofList typed)) := by
      rw [retype_mk, Layer.map, respell, if_pos ⟨rfl, rfl⟩, Option.map_some, shiftSpan_span quiet,
        new, ends]
      rfl
    rw [node]
    exact .string (none_of_rel (spaced.eat? quiet (by decide)) plain)
      (by rw [← spaced.quoteAhead quiet, ahead]) (readString_eq_ok.mpr ⟨typed, again, rfl⟩)

end Typing

end EmberAssist.Template
