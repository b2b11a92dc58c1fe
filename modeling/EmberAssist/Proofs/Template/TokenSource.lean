import EmberAssist.Proofs.Template.Placement
import EmberAssist.Proofs.Template.Tokens

/-! Where names and strings stand in the text of a template, and what stands around them. -/
namespace EmberAssist.Template

open Text

variable {chars : List Char} {depth : Nat} {production : Production} {yield : Yield}
variable {input opened inner behind closed : Input} {parent node : Node Span}

/-! ## Before a name -/

/-- The character before an input of a text is no part of a name. -/
def Input.Fenced (chars : List Char) (input : Input) : Prop :=
  ∃ before, chars = before ++ input.rest ∧ input.offset = before.length ∧
    ∀ c ∈ before.getLast?, Input.isPathChar c = false

namespace Input.Fenced

/-- What is behind some text that ends in no character of a name is fenced. -/
private theorem of_read (read : List Char) {c : Char} (reach : .ofText chars ≤ input)
    (rest : input.rest = read ++ c :: behind.rest)
    (offset : behind.offset = input.offset + read.length + 1) (outside : isPathChar c = false) :
    behind.Fenced chars := by
  obtain ⟨before, source, place⟩ := source_of_reach reach
  refine ⟨before ++ read ++ [c], by rw [source, rest]; simp, ?_, ?_⟩
  · simp only [List.length_append, List.length_cons, List.length_nil]
    omega
  · intro d last
    rw [List.getLast?_append, List.getLast?_singleton] at last
    cases last
    exact outside

theorem of_eat? (pattern : List Char) {c : Char} (reach : .ofText chars ≤ input)
    (read : input.eat? (pattern ++ [c]) = some behind) (outside : isPathChar c = false) :
    behind.Fenced chars := by
  obtain ⟨rest, offset⟩ := eat?_eq_some.mp read
  refine of_read pattern reach (by rw [rest]; simp) ?_ outside
  rw [offset, List.length_append]
  rfl

theorem reach (fenced : input.Fenced chars) : .ofText chars ≤ input := by
  obtain ⟨before, source, place, -⟩ := fenced
  exact ⟨before, source, by simpa [ofText] using place⟩

theorem skipBlank (fenced : input.Fenced chars) : input.skipBlank.Fenced chars := by
  cases run : input.takeWhile isBlank with
  | mk blanks spaced =>
    obtain ⟨rest, offset, solid, -⟩ := takeWhile_eq.mp run
    have arrived : input.skipBlank = spaced := by rw [Input.skipBlank, skipWhile, run]
    rw [arrived]
    rcases List.eq_nil_or_concat' blanks with rfl | ⟨others, c, rfl⟩
    · obtain ⟨before, source, place, outside⟩ := fenced
      exact ⟨before, by rw [source, rest]; rfl, by rw [offset, place]; rfl, outside⟩
    · refine of_read others (c := c) fenced.reach (by rw [rest]; simp) ?_ ?_
      · rw [offset, List.length_append]
        rfl
      · simp [isPathChar, solid c (by simp)]

theorem skipTilde (fenced : input.Fenced chars) : input.skipTilde.Fenced chars := by
  have spaced := fenced.skipBlank
  unfold Input.skipTilde skipOptional
  cases tilde : input.skipBlank.eat? ['~'] with
  | none => exact spaced
  | some behind => exact of_eat? [] spaced.reach tilde (by decide)

end Input.Fenced

/-- How an invocation was read: behind the characters that open it, within what it came from. -/
structure Invocation (chars : List Char) (parent : Node Span) (input : Input)
    (call : Call (Node Span)) : Prop where
  fenced : input.Fenced chars
  nodes : parent.children = call.nodes
  begins : ∃ place, parent.range = some place ∧ place.start < input.offset
  reads : ∃ depth closed, Reads depth .call input (.call call) closed

private theorem invocation_of_mustache {call : Call (Node Span)} {trusting : Bool}
    (reach : .ofText chars ≤ input) (opens : input.eat? openBraces = some opened)
    (invoked : Reads depth .mustache opened (.mustache call trusting) closed) :
    ∃ start, Invocation chars (.between input closed (.mustache call trusting)) start call := by
  have fenced : opened.Fenced chars :=
    .of_eat? ['{'] reach opens (by decide)
  have later := (Input.eat?_eq_some.mp opens).2
  have order : input.offset < opened.offset := by
    rw [later]
    exact Nat.lt_add_of_pos_right (by decide)
  cases invoked with
  | trusting third invoked closes =>
    have further := Input.Fenced.of_eat? [] (c := '{') fenced.reach third (by decide)
    have gap := (Input.le_of_eat? third).trans (Input.le_skipTilde _)
    exact ⟨_, further.skipTilde, Layer.children_mustache _ _,
      ⟨_, rfl, Nat.lt_of_lt_of_le order (Input.offset_le gap)⟩, _, _, invoked⟩
  | mustache plain invoked closes =>
    exact ⟨_, fenced.skipTilde, Layer.children_mustache _ _,
      ⟨_, rfl, Nat.lt_of_lt_of_le order (Input.offset_le (Input.le_skipTilde opened))⟩, _, _, invoked⟩

/-- Whatever invokes something as a mustache or as a subexpression was read around a call of it. -/
theorem Origin.invocation (origin : Origin (.ofText chars) parent)
    (invoked : invoked? parent.layer = some node) :
    ∃ start call, call.callee = node ∧ Invocation chars parent start call := by
  cases origin with
  | mustache reach opens read =>
    obtain ⟨start, found⟩ := invocation_of_mustache reach opens read
    exact ⟨start, _, Option.some.inj invoked, found⟩
  | single reach reads =>
    cases reads with
    | subExpression opens read closes =>
      have reach := reach.trans (Input.le_skipBlank _)
      have later := (Input.eat?_eq_some.mp opens).2
      exact ⟨_, _, Option.some.inj invoked, .of_eat? [] reach opens (by decide),
        Layer.children_subExpression _, ⟨_, rfl, by simp [later]⟩, _, _, read⟩
    | mustacheStatement plain opens single read | mustacheValue opens read =>
      obtain ⟨start, found⟩ := invocation_of_mustache reach opens read
      exact ⟨start, _, Option.some.inj invoked, found⟩
    | string plain quoted read =>
      obtain ⟨value, -, rfl⟩ := readString_eq_ok.mp read
      cases invoked
    | word plain bare read =>
      rcases readWord_eq_ok.mp read with ⟨number, -, rfl⟩ | ⟨-, word, -, rfl⟩
      · cases invoked
      · rw [Node.between, Node.layer, invoked?_wordLayer] at invoked
        cases invoked
    | quotedValue plain quoted inside =>
      simp only [Node.between, Node.layer, Template.quotedValue] at invoked
      split at invoked <;> cases invoked
    | mustacheComment opens comment =>
      obtain ⟨value, -, rfl⟩ := readMustacheComment_eq_ok.mp comment
      cases invoked
    | comment plain bare opens comment =>
      obtain ⟨value, -, rfl⟩ := readComment_eq_ok.mp comment
      cases invoked
    | bareValue | valueless | attr | block | element | text => cases invoked
  | comment reach opens comment =>
    obtain ⟨value, -, rfl⟩ := readMustacheComment_eq_ok.mp comment
    cases invoked
  | link link =>
    cases link
    cases invoked
  | whole | pair | hash | modifier | piece | unvalued | block | chain => cases invoked

/-- What holds a path or a literal came from some part of the text. -/
theorem Origin.placed_of_spelled {slot : Slot} {root : Input} (origin : Origin root parent)
    (held : parent.child? slot = some node) (spelled : (spelling? node.layer).isSome = true) :
    ∃ place, parent.range = some place := by
  refine Option.ne_none_iff_exists'.mp fun absent => ?_
  have member := Node.mem_children_of_child? held
  rw [Node.children] at member
  rcases origin.unplaced absent with empty | empty | ⟨next, link, layer⟩
  · rw [empty] at member
    cases member
  · rw [empty] at member
    cases member
  · rw [layer, Layer.children_block, List.mem_singleton] at member
    subst member
    cases link
    cases spelled

/-! ## Names -/

/-- A name stands in a text by itself: nothing around it can be taken for a part of it, nor the name
for the beginning of something else. -/
structure NameStands (before word after : List Char) : Prop where
  named : ∀ c ∈ word, Input.isPathChar c = true
  apart : ∀ c ∈ before.getLast?, Input.isPathChar c = false
  ends : ∀ c ∈ after.head?, Input.isPathChar c = false ∧ c ≠ '='
  bare : Input.seesBlockParams ⟨before.length, word ++ after⟩ = false

/-- What a mustache or a subexpression invokes by name stands in the text as a name. -/
theorem Origin.name (origin : Origin (.ofText chars) parent)
    (invoked : invoked? parent.layer = some node)
    (path : (pathSpelling? node.layer).isSome = true) : ∃ before word after,
      chars = before ++ (word ++ after) ∧ NameStands before word after ∧
        node = .mk (some ⟨before.length, before.length + word.length⟩) (wordLayer word) := by
  obtain ⟨start, call, rfl, found⟩ := origin.invocation invoked
  obtain ⟨depth, closed, reads⟩ := found.reads
  cases reads with
  | @call _ _ behind _ callee params pairs called given =>
    obtain ⟨before, source, place, apart⟩ := found.fenced.skipBlank
    obtain ⟨shallower, word, rfl, -, -, -, taken, same⟩ := called.of_path path
    obtain ⟨run, -⟩ := Input.takeSome?_eq_some.mp taken
    obtain ⟨rest, offset, named, stops⟩ := Input.takeWhile_eq.mp run
    have here : start.skipBlank = ⟨before.length, word ++ behind.rest⟩ := by rw [← place, ← rest]
    refine ⟨before, word, behind.rest, by rw [source, rest], ⟨named, apart, ?_, ?_⟩, ?_⟩
    · refine fun c head => ⟨stops c head, ?_⟩
      rintro rfl
      have solid : behind.skipBlank = behind := Input.skipBlank_of_head fun d next => by
        cases (show _ = _ from head).symm.trans next
        decide
      exact (given.head_of_arguments '=' (by rw [solid]; exact head)).1 rfl
    · rw [← here]
      exact given.bare_of_arguments taken
    · rw [same, Node.between, offset, place]

/-! ## What ends before a name -/

private theorem eq_of_at?_leaf {other : Node Span} {address : List Slot} (leaf : node.children = [])
    (found : node.at? address = some other) : other = node := by
  rcases Node.holds_iff.mp ⟨address, found⟩ with same | ⟨child, member, -⟩
  · exact same
  · rw [leaf] at member
    cases member

/-- Of the parts of an invocation none ends where what it invokes begins. -/
private theorem Invocation.stop_ne {call : Call (Node Span)} {other : Node Span}
    {address : List Slot} {place elsewhere : Span} (found : Invocation chars parent input call)
    (leaf : call.callee.children = []) (placed : call.callee.range = some place)
    (proper : place.start < place.stop) {slot : Slot}
    (there : parent.at? (slot :: address) = some other) (otherPlaced : other.range = some elsewhere) :
    elsewhere.stop ≠ place.start := by
  obtain ⟨depth, closed, reads⟩ := found.reads
  have laid : Laid _ _ call.nodes := reads.laid
  rw [Node.at?_cons, Option.bind_eq_some_iff] at there
  obtain ⟨child, held, there⟩ := there
  have member := Node.mem_children_of_child? held
  rw [found.nodes] at member
  have laminar := laid.laminar child member
  rcases List.mem_cons.mp member with rfl | member
  · obtain rfl := eq_of_at?_leaf leaf there
    cases placed.symm.trans otherPlaced
    omega
  · obtain ⟨outer, front, inside⟩ := laminar.inside_front there otherPlaced
    have ordered := laid.ordered
    rw [Call.nodes, List.flatMap_cons, List.pairwise_append] at ordered
    have behind := ordered.2.2 place (by simp [Node.front_of_range placed]) outer
      (List.mem_flatMap.mpr ⟨child, member, front⟩)
    have forward := (laminar.at? there).first_le_last otherPlaced
    have begins := inside.1
    simp only [Stretch.first, Stretch.last] at begins forward
    omega

/-- Nothing in a template ends where a name begins that a mustache or a subexpression invokes. -/
theorem parseSpans_stop_ne {tree other : Node Span} {address : List Slot} {place elsewhere : Span}
    (parsed : parseSpans chars = .ok tree) (found : tree.at? address = some parent)
    (invoked : invoked? parent.layer = some node) (leaf : node.children = [])
    (placed : node.range = some place) (proper : place.start < place.stop)
    (holds : tree.Holds other) (otherPlaced : other.range = some elsewhere) :
    elsewhere.stop ≠ place.start := by
  obtain ⟨target, there⟩ := holds
  have laminar := parseSpans_laminar parsed
  obtain ⟨start, call, rfl, invocation⟩ := (parseSpans_origin parsed found).invocation invoked
  obtain ⟨outer, around, begins⟩ := invocation.begins
  obtain ⟨⟨slot, callee⟩, held, same⟩ := List.mem_map.mp (mem_children_of_invoked? invoked)
  obtain rfl : callee = call.callee := same
  have below : parent.at? [slot] = some call.callee := by
    rw [Node.at?_cons, Node.child?_eq_some.mpr held]
    rfl
  by_cases above : target <+: address
  · obtain ⟨rest, rfl⟩ := above
    rw [Node.at?_append, there, Option.bind_some] at found
    have inner : other.at? (rest ++ [slot]) = some call.callee := by
      rw [Node.at?_append, found]
      exact below
    have inside := ((laminar.at? there).inside_ancestor otherPlaced inner placed).2
    simp only [Stretch.last] at inside
    omega
  by_cases inward : address <+: target
  · obtain ⟨rest, rfl⟩ := inward
    rw [Node.at?_append, found, Option.bind_some] at there
    cases rest with
    | nil => exact absurd (by simp) above
    | cons slot rest => exact invocation.stop_ne leaf placed proper there otherPlaced
  · have apart := laminar.apart_of_unrelated found there around otherPlaced inward above
    have inside := ((laminar.at? found).inside_ancestor around below placed).2
    have forward := (laminar.at? there).first_le_last otherPlaced
    obtain ⟨depth, closed, reads⟩ := invocation.reads
    have within := (reads.bounds (show call.callee ∈ call.nodes by simp [Call.nodes]) (.self _)
      placed).1
    rcases apart with behind | before
    · simp only [Stretch.first, Stretch.last] at behind inside forward
      omega
    · simp only [Stretch.first, Stretch.last] at before
      omega

/-! ## Paths and strings -/

/-- Whatever is spelled was read as an expression. -/
theorem Origin.expression {root : Input} (origin : Origin root node)
    (spelled : (spelling? node.layer).isSome = true) : ∃ depth input closed, root ≤ input ∧
      Reads depth .expression input (.node node) closed := by
  cases origin with
  | single reach reads =>
    cases reads with
    | string plain quoted read => exact ⟨1, _, _, reach, .string plain quoted read⟩
    | word plain bare read => exact ⟨1, _, _, reach, .word plain bare read⟩
    | quotedValue plain quoted inside =>
      simp only [Node.between, Node.layer, Template.quotedValue] at spelled
      split at spelled <;> cases spelled
    | mustacheComment opens comment =>
      obtain ⟨value, -, rfl⟩ := readMustacheComment_eq_ok.mp comment
      cases spelled
    | comment plain bare opens comment =>
      obtain ⟨value, -, rfl⟩ := readComment_eq_ok.mp comment
      cases spelled
    | subExpression | mustacheStatement | mustacheValue | bareValue | valueless | attr | block
    | element | text => cases spelled
  | comment reach opens comment =>
    obtain ⟨value, -, rfl⟩ := readMustacheComment_eq_ok.mp comment
    cases spelled
  | link link =>
    cases link
    cases spelled
  | whole | pair | hash | mustache | modifier | piece | unvalued | block | chain => cases spelled

theorem spelling?_wordLayer {α : Type} {word : List Char}
    (path : (pathSpelling? (wordLayer word : Layer α)).isSome = true) :
    spelling? (wordLayer word : Layer α) = some (String.ofList word) ∧
      pathSpelling? (wordLayer word : Layer α) = some (String.ofList word) ∧
      (wordLayer word : Layer α).typeName = "PathExpression" := by
  simp only [wordLayer] at path ⊢
  split_ifs at path ⊢ <;> first | exact ⟨rfl, rfl, rfl⟩ | cases path

/-- A path was read from a run of its characters. -/
structure PathStands (chars : List Char) (node : Node Span) (before word after : List Char) :
    Prop where
  source : chars = before ++ (word ++ after)
  filled : word ≠ []
  named : ∀ c ∈ word, Input.isPathChar c = true
  ends : ∀ c ∈ after.head?, Input.isPathChar c = false
  made : node = .mk (some ⟨before.length, before.length + word.length⟩) (wordLayer word)

theorem PathStands.layer {before word after : List Char}
    (stands : PathStands chars node before word after) : node.layer = wordLayer word := by
  rw [stands.made]
  rfl

theorem Reads.pathStands (reach : .ofText chars ≤ input)
    (reads : Reads depth .expression input (.node node) closed)
    (path : (pathSpelling? node.layer).isSome = true) :
    ∃ before word, before.length = input.skipBlank.offset ∧
      PathStands chars node before word closed.rest := by
  obtain ⟨_, word, -, -, -, -, taken, same⟩ := reads.of_path path
  obtain ⟨run, filled⟩ := Input.takeSome?_eq_some.mp taken
  obtain ⟨rest, offset, named, ends⟩ := Input.takeWhile_eq.mp run
  obtain ⟨before, source, place⟩ := Input.source_of_reach (reach.trans (Input.le_skipBlank _))
  exact ⟨before, word, place.symm, by rw [source, rest], filled, named, ends,
    by rw [same, Node.between, offset, place]⟩

theorem Origin.path (origin : Origin (.ofText chars) node)
    (path : (pathSpelling? node.layer).isSome = true) :
    ∃ before word after, PathStands chars node before word after := by
  obtain ⟨depth, input, closed, reach, reads⟩ := origin.expression (by
    cases layer : node.layer <;> simp_all [pathSpelling?, spelling?])
  obtain ⟨before, word, -, stands⟩ := reads.pathStands reach path
  exact ⟨before, word, _, stands⟩

/-- A string literal was read from the text between its quotes. -/
structure StringStands (chars : List Char) (node : Node Span) (before : List Char) (quote : Char)
    (raw value after : List Char) : Prop where
  quoted : quote = '\'' ∨ quote = '"'
  source : chars = before ++ (quote :: (raw ++ [quote]) ++ after)
  read : Input.unescape quote raw = some value
  made : node = .mk (some ⟨before.length, before.length + (raw.length + 2)⟩)
    (.stringLiteral (String.ofList value) (String.ofList value))

theorem Origin.string (origin : Origin (.ofText chars) node)
    (string : (stringValue? node.layer).isSome = true) :
    ∃ before quote raw value after, StringStands chars node before quote raw value after := by
  obtain ⟨depth, input, closed, reach, reads⟩ := origin.expression (by
    cases layer : node.layer <;> simp_all [stringValue?, spelling?])
  obtain ⟨_, quote, value, -, -, ahead, tail, same⟩ := reads.of_string string
  obtain ⟨before, source, place⟩ := Input.source_of_reach (reach.trans (Input.le_skipBlank _))
  obtain ⟨rest, first, single⟩ := quoteAhead_eq_some.mp ahead
  have solid : quote ≠ '\\' := by rcases single with rfl | rfl <;> decide
  rw [first, List.drop_one, List.tail_cons, Input.stringTail?_eq_some solid] at tail
  obtain ⟨raw, rfl, offset, found⟩ := tail
  refine ⟨before, quote, raw, value, closed.rest, single, ?_, found, ?_⟩
  · rw [source, first]
    simp
  · rw [same, Node.between, offset, place]
    congr 3
    omega

end EmberAssist.Template
