import EmberAssist.Template.Source
import EmberAssist.Proofs.Template.Passages
import EmberAssist.Proofs.Template.Tokens

/-! Tags of blocks that are read as something else. Only among statements does the grammar look for
them before it reads a mustache; anywhere else, and where a closing tag is not complete, the mark behind
the braces is taken for the beginning of a name. -/
namespace EmberAssist.Template

open Text

variable {ρ σ : Type} {place : Span → ρ} {chars name part : List Char} {mark : Char}
variable {depth : Nat} {root input opened behind next stop closed : Input}

/-- What tells the tags that open and close blocks from mustaches. -/
def blockMarks : List Char := ['#', '/']

theorem mem_blockMarks : mark ∈ blockMarks ↔ mark = '#' ∨ mark = '/' := by simp [blockMarks]

/-- A mark begins no expression but a word, and is skipped by nothing. -/
private theorem differs_of_mark (marked : mark ∈ blockMarks) : isBlank mark = false ∧
    isDecimalDigit mark = false ∧ mark ∉ ['(', '\'', '"', '-', '~', '{'] := by
  rcases mem_blockMarks.mp marked with rfl | rfl
  · exact ⟨rfl, rfl, by simp⟩
  · exact ⟨rfl, rfl, by simp⟩

/-! ## Tags that are seen -/

namespace Input

/-- An opener with a mark behind it is read up to the mark. -/
theorem eatOpen?_of_prefix {opener after : List Char} (opening : opener ∈ openers)
    (solid : mark ≠ '~') (source : input.rest = opener ++ mark :: after) :
    input.eatOpen? = some ⟨input.offset + opener.length, mark :: after⟩ := by
  obtain ⟨offset, rest⟩ := input
  obtain rfl : rest = _ := source
  simp only [openers, List.mem_cons, List.not_mem_nil, or_false] at opening
  rcases opening with rfl | rfl
  · simp [eatOpen?, eat?, openBraces, skipOptional, solid.symm]
  · rfl

theorem seesBlockOpen_of_prefix {opener after : List Char} (opening : opener ∈ openers)
    (source : input.rest = opener ++ '#' :: after) : input.seesBlockOpen = true := by
  rw [seesBlockOpen, eatOpen?_of_prefix opening (by decide) source]
  rfl

/-- Blanks and the closer of a tag are no part of a name. -/
private theorem ends_closeName {right closer : List Char} (blank : ∀ c ∈ right, isBlank c = true)
    (closing : closer ∈ closers) (after : List Char) :
    ∀ c ∈ (right ++ (closer ++ after)).head?, isCloseNameChar c = false := by
  intro c head
  cases right with
  | nil =>
    simp only [closers, List.mem_cons, List.not_mem_nil, or_false] at closing
    rcases closing with rfl | rfl <;> cases head <;> decide
  | cons d right =>
    cases head
    simp [isCloseNameChar, blank c (by simp)]

/-- A complete closing tag is seen. -/
theorem isSome_closeBlock?_of_prefix {after : List Char} (filled : name ≠ [])
    (named : ∀ c ∈ name, isCloseNameChar c = true) (closes : ClosesBlock name part)
    (source : input.rest = part ++ after) : input.closeBlock?.isSome = true := by
  obtain ⟨opener, opening, closer, closing, left, right, blank, rfl⟩ := closes
  have leftBlank : ∀ c ∈ left, isBlank c = true := fun c member => blank c (by simp [member])
  have rightBlank : ∀ c ∈ right, isBlank c = true := fun c member => blank c (by simp [member])
  have begins : ∀ c ∈ (name ++ (right ++ (closer ++ after))).head?, isBlank c = false := by
    obtain ⟨d, others, rfl⟩ := List.exists_cons_of_ne_nil filled
    rintro c ⟨⟩
    have := named d (by simp)
    simp only [isCloseNameChar, Bool.and_eq_true, Bool.not_eq_true'] at this
    exact this.1.1
  have ends : ∀ c ∈ (closer ++ after).head?, isBlank c = false := by
    simp only [closers, List.mem_cons, List.not_mem_nil, or_false] at closing
    rcases closing with rfl | rfl <;> rintro c ⟨⟩ <;> decide
  have opens : input.eatOpen? = some ⟨input.offset + opener.length,
      ['/'] ++ (left ++ (name ++ (right ++ (closer ++ after))))⟩ :=
    eatOpen?_of_prefix opening (by decide) (by rw [source]; simp)
  have closed (offset : Nat) : eatClose? ⟨offset, closer ++ after⟩ =
      some ⟨offset + closer.length, after⟩ :=
    eatClose?_eq_some.mpr ⟨closer, closing, rfl, rfl⟩
  simp only [closeBlock?, bind, opens, Option.bind_some, eat?_append,
    skipBlank_append leftBlank begins, skipBlank_append rightBlank ends, closed,
    takeSome?_append filled named (ends_closeName rightBlank closing after)]
  rfl

end Input

/-! ## Mustaches among statements -/

/-- Every statement of a body is read where no body ends. -/
theorem Reads.statement_of_mem {nodes : List (Node Span)} {node : Node Span}
    (reads : Reads depth .body input (.list nodes) closed) (member : node ∈ nodes) :
    ∃ depth start stop, input ≤ start ∧ start.endsBody = false ∧
      Reads depth .statement start (.node node) stop := by
  induction depth generalizing input nodes with
  | zero => cases reads
  | succ depth ih =>
    cases reads with
    | noStatements ends => cases member
    | statements goesOn head rest =>
      rcases List.mem_cons.mp member with rfl | member
      · exact ⟨_, _, _, le_refl _, goesOn, head⟩
      · obtain ⟨shallower, start, stop, order, goesOn, reads⟩ := ih rest member
        exact ⟨shallower, start, stop, head.le.trans order, goesOn, reads⟩

/-- The statements that a node holds as its content. -/
def Layer.statements {α : Type} : Layer α → List α
  | .template body _ | .block body _ => body
  | .element _ _ _ _ _ _ children => children
  | _ => []

theorem Layer.IsToken.statements {α : Type} {layer : Layer α} (token : layer.IsToken) :
    layer.statements = [] := by
  cases layer with
  | template | block | element => cases token
  | _ => rfl

theorem Layer.statements_map {α β : Type} (f : α → β) (layer : Layer α) :
    (layer.map f).statements = layer.statements.map f := by
  cases layer <;> rfl

/-- The content of a node was read as statements, but for a block that goes on in an else tag. -/
theorem Origin.statement {parent node : Node Span} (origin : Origin root parent)
    (held : node ∈ parent.layer.statements) :
    Link root node ∨ ∃ depth start stop, root ≤ start ∧ start.endsBody = false ∧
      Reads depth .statement start (.node node) stop := by
  have of_body {depth : Nat} {input closed : Input} {nodes : List (Node Span)} (reach : root ≤ input)
      (reads : Reads depth .body input (.list nodes) closed) (member : node ∈ nodes) :
      Link root node ∨ ∃ depth start stop, root ≤ start ∧ start.endsBody = false ∧
        Reads depth .statement start (.node node) stop := by
    obtain ⟨shallower, start, stop, order, goesOn, reads⟩ := reads.statement_of_mem member
    exact .inr ⟨shallower, start, stop, reach.trans order, goesOn, reads⟩
  have of_token {goal : Prop} (token : parent.layer.IsToken) : goal := by
    rw [token.statements] at held
    cases held
  cases origin with
  | whole body => exact of_body (le_refl _) body held
  | block reach body => exact of_body reach body held
  | single reach reads =>
    cases reads with
    | element plain bare visible tagged read =>
      obtain ⟨opened, opens, named⟩ := Option.bind_eq_some_iff.mp tagged
      cases read with
      | bareElement startTag bare => cases held
      | filledElement startTag filled inside closes ends =>
        exact of_body (((reach.trans (Input.le_of_eat? opens)).trans
          (Input.le_of_tagName? named)).trans startTag.le) inside held
    | quotedValue plain quoted inside =>
      simp only [Node.between, Node.layer, Template.quotedValue] at held
      split_ifs at held <;> cases held
    | string plain quoted read => exact of_token (isToken_of_readString read)
    | word plain bare read => exact of_token (isToken_of_readWord read)
    | mustacheComment opens comment => exact of_token (isToken_of_readMustacheComment comment)
    | comment plain bare opens comment => exact of_token (isToken_of_readComment comment)
    | subExpression | mustacheValue | bareValue | valueless | attr | block | mustacheStatement
    | text => cases held
  | comment reach opens comment => exact of_token (isToken_of_readMustacheComment comment)
  | link link =>
    cases link
    cases held
  | chain link => exact .inl (List.mem_singleton.mp held ▸ link)
  | pair | hash | mustache | modifier | piece | unvalued => cases held

/-- No block is opened, nor closed by a complete tag, where some text begins. -/
def BeginsNoTag (part : List Char) : Prop :=
  (∀ opener ∈ Input.openers, ¬ opener ++ ['#'] <+: part) ∧
    ∀ name closing, name ≠ [] → (∀ c ∈ name, Input.isCloseNameChar c = true) →
      Input.ClosesBlock name closing → ¬ closing <+: part

/-- Before a mustache is read as a statement, it is made sure that no block is opened or closed. -/
theorem Reads.beginsNoTag {node : Node Span} {call : Call (Node Span)} {trusting : Bool}
    (reads : Reads depth .statement input (.node node) closed) (goesOn : input.endsBody = false)
    (layer : node.layer = .mustache call trusting) (passes : input.Passes part closed) :
    BeginsNoTag part := by
  have single : input.seesBlockOpen = false := by
    cases reads with
    | mustacheStatement plain opens single invoked => exact single
    | mustacheComment opens comment =>
      obtain ⟨value, -, rfl⟩ := readMustacheComment_eq_ok.mp comment
      cases layer
    | comment plain bare opens comment =>
      obtain ⟨value, -, rfl⟩ := readComment_eq_ok.mp comment
      cases layer
    | block | element | text => cases layer
  simp only [Input.endsBody, Bool.or_eq_false_iff] at goesOn
  constructor
  · rintro opener opening ⟨after, rfl⟩
    have source : input.rest = opener ++ '#' :: (after ++ closed.rest) := by simp [passes.1]
    have seen := Input.seesBlockOpen_of_prefix opening source
    rw [single] at seen
    cases seen
  · rintro name closing filled named closes ⟨after, rfl⟩
    have source : input.rest = closing ++ (after ++ closed.rest) := by simp [passes.1]
    have seen := Input.isSome_closeBlock?_of_prefix filled named closes source
    rw [goesOn.1.2] at seen
    cases seen

/-! ## Names that begin with a mark -/

/-- An invocation that begins with a mark calls a path that begins with it. -/
theorem Reads.callee_of_mark {call : Call (Node Span)} {after : List Char}
    (reads : Reads depth .call input (.call call) closed) (marked : mark ∈ blockMarks)
    (source : input.rest = mark :: after) : ∃ word stop, input.Passes (mark :: word) stop ∧
      stop ≤ closed ∧ call.callee = .between input stop (wordLayer (mark :: word)) := by
  obtain ⟨solid, digitless, differs⟩ := differs_of_mark marked
  have here : input.skipBlank = input := Input.skipBlank_of_head (by
    rw [source]
    rintro _ ⟨⟩
    exact solid)
  cases reads with
  | call called given =>
    cases called with
    | subExpression opens invoked closes =>
      have first := (Input.eat?_eq_some.mp opens).1
      rw [here, source] at first
      exact absurd (List.cons.inj first).1 fun same => differs (by simp [same])
    | string plain quoted read =>
      obtain ⟨rest, first, quote⟩ := quoteAhead_eq_some.mp quoted
      rw [here, source] at first
      obtain rfl := (List.cons.inj first).1
      exact absurd (by rcases quote with rfl | rfl <;> simp) differs
    | word plain bare read =>
      rw [here] at read
      rcases readWord_eq_ok.mp read with ⟨number, counted, -⟩ | ⟨-, word, taken, rfl⟩
      · obtain ⟨c, first, counts⟩ := head_of_number? counted
        rw [source] at first
        cases first
        rcases counts with rfl | digit
        · exact absurd (by simp) differs
        · rw [digitless] at digit
          cases digit
      · have passes := Input.passes_of_takeSome? taken
        obtain ⟨c, word, rfl⟩ := List.exists_cons_of_ne_nil (Input.takeSome?_eq_some.mp taken).2
        obtain rfl : mark = c := (List.cons.inj (source.symm.trans passes.1)).1
        exact ⟨word, _, passes, given.le, rfl⟩

private theorem pathSpelling?_of_mark {α : Type} (marked : mark ∈ blockMarks) (word : List Char) :
    pathSpelling? (wordLayer (mark :: word) : Layer α) = some (String.ofList (mark :: word)) := by
  have differ (c : Char) (rest : List Char) (letter : c ∉ blockMarks) :
      ¬ String.ofList (mark :: word) = String.ofList (c :: rest) := by
    rw [String.ofList_inj]
    rintro ⟨⟩
    exact letter marked
  simp only [wordLayer, beq_iff_eq]
  rw [if_neg (differ 't' ['r', 'u', 'e'] (by simp [blockMarks])),
    if_neg (differ 'f' ['a', 'l', 's', 'e'] (by simp [blockMarks])),
    if_neg (differ 'n' ['u', 'l', 'l'] (by simp [blockMarks])),
    if_neg (differ 'u' ['n', 'd', 'e', 'f', 'i', 'n', 'e', 'd'] (by simp [blockMarks]))]
  rfl

/-- What is called at some offset by a path that begins with a mark, and stands there. -/
def CallsMark (place : Span → ρ) (start : Nat) (opener part : List Char) (mark : Char)
    (callee : Node ρ) : Prop :=
  ∃ spelling, pathSpelling? callee.layer = some spelling ∧ spelling.toList.head? = some mark ∧
    opener ++ spelling.toList <+: part ∧
    callee.range =
      some (place ⟨start + opener.length, start + opener.length + spelling.toList.length⟩)

/-- A mustache or a modifier whose braces are followed by a mark calls a path that begins with it. -/
def Node.MarksPath (place : Span → ρ) (chars : List Char) (node : Node ρ) : Prop :=
  match node.layer with
  | .mustache call _ | .modifier call => ∃ before part after, chars = before ++ part ++ after ∧
    node.range = some (place ⟨before.length, before.length + part.length⟩) ∧
    ∀ opener ∈ Input.openers, ∀ mark ∈ blockMarks, opener ++ [mark] <+: part →
      CallsMark place before.length opener part mark call.callee
  | _ => True

/-- Braces are read up to the mark behind them. -/
private theorem skipTilde_of_prefix {opener after : List Char}
    (opens : input.eat? openBraces = some opened) (opening : opener ∈ Input.openers)
    (marked : mark ∈ blockMarks) (source : input.rest = opener ++ mark :: after) :
    opened.skipTilde = ⟨input.offset + opener.length, mark :: after⟩ := by
  obtain ⟨solid, -, differs⟩ := differs_of_mark marked
  have differ : mark ≠ '~' := fun same => differs (by simp [same])
  have read := Input.eatOpen?_of_prefix opening differ source
  rw [Input.eatOpen?, opens] at read
  have first := (Input.eat?_eq_some.mp opens).1
  rw [Input.skipTilde, Input.skipBlank_of_head]
  · exact Option.some.inj read
  rw [source] at first
  simp only [Input.openers, List.mem_cons, List.not_mem_nil, or_false] at opening
  rcases opening with rfl | rfl
  · rw [← List.append_cancel_left first]
    rintro c ⟨⟩
    exact solid
  · rw [List.append_assoc] at first
    rw [← List.append_cancel_left first]
    rintro c ⟨⟩
    rfl

private theorem callsMark_of_call {call : Call (Node Span)} {opener : List Char}
    (opens : input.eat? openBraces = some opened)
    (invoked : Reads depth .call opened.skipTilde (.call call) behind) (order : behind ≤ closed)
    (passes : input.Passes part closed) (opening : opener ∈ Input.openers)
    (marked : mark ∈ blockMarks) (begins : opener ++ [mark] <+: part) :
    CallsMark id input.offset opener part mark call.callee := by
  obtain ⟨more, rfl⟩ := begins
  have source : input.rest = opener ++ mark :: (more ++ closed.rest) := by simp [passes.1]
  have start := skipTilde_of_prefix opens opening marked source
  rw [start] at invoked
  obtain ⟨word, stop, word_, ends, called⟩ := invoked.callee_of_mark marked rfl
  refine ⟨String.ofList (mark :: word), ?_, ?_, ?_, ?_⟩
  · rw [called]
    exact pathSpelling?_of_mark marked word
  · rw [String.toList_ofList]
    rfl
  · obtain ⟨between, rest⟩ := Input.exists_passes (ends.trans order)
    have same : more ++ closed.rest = word ++ between ++ closed.rest := by
      rw [List.append_assoc, ← rest.1]
      exact (List.cons.inj word_.1).2
    rw [List.append_cancel_right same, String.toList_ofList]
    exact ⟨between, by simp⟩
  · rw [called, String.toList_ofList]
    exact congrArg some (congrArg (Span.mk _) word_.2)

/-! ## All nodes -/

private theorem marksPath_of_mustache {call : Call (Node Span)} {trusting : Bool}
    (reach : .ofText chars ≤ input) (opens : input.eat? openBraces = some opened)
    (invoked : Reads depth .mustache opened (.mustache call trusting) closed) :
    (Node.between input closed (.mustache call trusting)).MarksPath id chars := by
  obtain ⟨part, passes⟩ := Input.exists_passes ((Input.le_of_eat? opens).trans invoked.le)
  obtain ⟨before, after, offset, source⟩ := passes.source reach
  refine ⟨before, part, after, source, by rw [← offset, ← passes.2]; rfl,
    fun opener opening mark marked begins => ?_⟩
  rw [← offset]
  cases invoked with
  | mustache plain invoked closes =>
    exact callsMark_of_call opens invoked
      ((Input.le_skipTilde _).trans (Input.le_of_eat? closes)) passes opening marked begins
  | trusting third invoked closes =>
    -- A third brace stands where the mark or the tilde before it should.
    obtain ⟨more, rfl⟩ := begins
    have source : input.rest = opener ++ mark :: (more ++ closed.rest) := by simp [passes.1]
    have start := skipTilde_of_prefix opens opening marked source
    obtain ⟨place, rest⟩ := opened
    obtain rfl : rest = _ := (Input.eat?_eq_some.mp third).1
    obtain rfl : '{' = mark := (List.cons.inj (congrArg Input.rest start)).1
    exact absurd (by simp) (differs_of_mark marked).2.2

private theorem marksPath_of_modifier {call : Call (Node Span)} (reach : .ofText chars ≤ input)
    (opens : input.eat? openBraces = some opened)
    (invoked : Reads depth .modifier opened (.call call) closed) :
    (Node.between input closed (.modifier call)).MarksPath id chars := by
  obtain ⟨part, passes⟩ := Input.exists_passes ((Input.le_of_eat? opens).trans invoked.le)
  obtain ⟨before, after, offset, source⟩ := passes.source reach
  refine ⟨before, part, after, source, by rw [← offset, ← passes.2]; rfl,
    fun opener opening mark marked begins => ?_⟩
  rw [← offset]
  cases invoked with
  | modifier invoked closes =>
    exact callsMark_of_call opens invoked
      ((Input.le_skipTilde _).trans (Input.le_of_eat? closes)) passes opening marked begins

private theorem Node.MarksPath.of_token {node : Node ρ} (token : node.layer.IsToken) :
    node.MarksPath place chars := by
  obtain ⟨range, layer⟩ := node
  cases layer with
  | mustache | modifier => cases token
  | _ => trivial

/-- Whatever a node was made from, a mark behind its braces begins what it calls. -/
theorem Origin.marksPath {node : Node Span} (origin : Origin (.ofText chars) node) :
    node.MarksPath id chars := by
  cases origin with
  | single reach reads =>
    cases reads with
    | mustacheStatement plain opens single invoked | mustacheValue opens invoked =>
      exact marksPath_of_mustache reach opens invoked
    | quotedValue plain quoted inside =>
      simp only [Node.MarksPath, Node.between, Node.layer, Template.quotedValue]
      split_ifs <;> trivial
    | string plain quoted read => exact .of_token (isToken_of_readString read)
    | word plain bare read => exact .of_token (isToken_of_readWord read)
    | mustacheComment opens comment => exact .of_token (isToken_of_readMustacheComment comment)
    | comment plain bare opens comment => exact .of_token (isToken_of_readComment comment)
    | subExpression | bareValue | valueless | attr | block | element | text => trivial
  | mustache reach opens invoked => exact marksPath_of_mustache reach opens invoked
  | modifier reach opens invoked => exact marksPath_of_modifier reach opens invoked
  | comment reach opens comment => exact .of_token (isToken_of_readMustacheComment comment)
  | link link =>
    cases link
    trivial
  | whole | pair | hash | piece | unvalued | block | chain => trivial

theorem CallsMark.mapRange (move : ρ → σ) {start : Nat} {opener : List Char} {callee : Node ρ}
    (calls : CallsMark place start opener part mark callee) :
    CallsMark (move ∘ place) start opener part mark (callee.mapRange move) := by
  obtain ⟨spelling, called, begins, stands, placed⟩ := calls
  refine ⟨spelling, ?_, begins, stands, by rw [Node.range_mapRange, placed]; rfl⟩
  rw [Node.layer_mapRange, pathSpelling?_map, called]

theorem Node.MarksPath.mapRange (move : ρ → σ) {node : Node ρ} (marks : node.MarksPath place chars) :
    (node.mapRange move).MarksPath (move ∘ place) chars := by
  obtain ⟨range, layer⟩ := node
  rw [mapRange_mk]
  cases layer with
  | mustache call trusting | modifier call =>
    obtain ⟨before, part, after, source, placed, calls⟩ := marks
    exact ⟨before, part, after, source, congrArg (Option.map move) placed,
      fun opener opening mark marked begins => (calls opener opening mark marked begins).mapRange move⟩
  | _ => trivial

/-- Where the tags of blocks are read as plain calls. No mustache among statements begins with what
opens a block or with a complete tag that closes one. Any other mustache and any modifier that begins
like a tag of a block calls a path that begins with the mark. -/
structure BlockTagsRead (text : String) (tree : Node Range) : Prop where
  statements {address : List Slot} {parent node : Node Range} {call : Call (Node Range)}
    {trusting : Bool} (found : tree.at? address = some parent)
    (held : node ∈ parent.layer.statements) (layer : node.layer = .mustache call trusting) :
    ∃ part range, node.range = some range ∧
      Covers (rangeOf (lineStarts text.toList)) text.toList part range ∧ BeginsNoTag part
  marks {address : List Slot} {node : Node Range} (found : tree.at? address = some node) :
    node.MarksPath (rangeOf (lineStarts text.toList)) text.toList

/-- In every text the tags of blocks are told from mustaches among statements only. -/
theorem parse_blockTagsRead {text : String} {tree : Node Range} (parsed : parse text = .ok tree) :
    BlockTagsRead text tree := by
  constructor
  · intro address parent node call trusting found held layer
    obtain ⟨holder, origin, rfl⟩ := parse_origin parsed found
    rw [Node.layer_mapRange, Layer.statements_map, List.mem_map] at held
    obtain ⟨part, held, rfl⟩ := held
    obtain ⟨called, plain⟩ : ∃ called, part.layer = .mustache called trusting := by
      rw [Node.layer_mapRange] at layer
      cases made : part.layer <;> rw [made] at layer <;> cases layer
      exact ⟨_, rfl⟩
    rcases origin.statement held with link | ⟨_, start, stop, reach, goesOn, reads⟩
    · cases link
      cases plain
    · obtain ⟨chars, passes⟩ := Input.exists_passes reads.le
      refine ⟨chars, _, ?_, (passes.covers reach).map (rangeOf (lineStarts text.toList)),
        reads.beginsNoTag goesOn plain passes⟩
      rw [Node.range_mapRange, reads.range]
      rfl
  · intro address node found
    obtain ⟨part, origin, rfl⟩ := parse_origin parsed found
    exact origin.marksPath.mapRange _

theorem blockTagsRead_of_misplaced : ∃ tree,
    parse "<a b='{{/c}}' {{#d}}>{{/e f}}{{g}}</a>" = .ok tree ∧
      BlockTagsRead "<a b='{{/c}}' {{#d}}>{{/e f}}{{g}}</a>" tree := by
  have read : (parse
      "<a b='{{/c}}' {{#d}}>{{/e f}}{{g}}</a>").isOk = true := by
    decide +kernel
  cases parsed : parse
      "<a b='{{/c}}' {{#d}}>{{/e f}}{{g}}</a>" with
  | error fault =>
    rw [parsed] at read
    cases read
  | ok tree => exact ⟨tree, rfl, parse_blockTagsRead parsed⟩

/-- An opening tag without a closing one is a modifier in a start tag. -/
theorem modifier_of_opening_tag :
    ((parse "<p {{#a b}}></p>").toOption.bind (·.at? [.body 0, .modifiers 0])).map
        (fun node => (node.layer.typeName,
          (sourceAt? "<p {{#a b}}></p>".toList node.range).toOption)) =
      some ("ElementModifierStatement", some (some "{{#a b}}".toList)) := by
  decide +kernel

end EmberAssist.Template
