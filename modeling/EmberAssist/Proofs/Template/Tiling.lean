import EmberAssist.Proofs.Template.Passages

/-! No text is lost and none is read twice. The statements of a body, the parts of a quoted value and
the children of an element stand one behind the other from where the first can begin to where the last
must end. -/
namespace EmberAssist.Template

variable {ρ σ : Type} {place : Span → ρ} {chars : List Char} {depth : Nat}
variable {root input opened behind next stop closed : Input}

/-- Running text. -/
def Node.IsText (node : Node ρ) : Prop := ∃ chars, node.layer = .text chars

/-- Nodes stand one behind the other without a gap from one offset of a text to another, each over
some characters. A text is made of the characters that it stands over, and no other text is right
behind it. -/
inductive Tiles (place : Span → ρ) (chars : List Char) : Nat → List (Node ρ) → Nat → Prop where
  | nil (offset : Nat) : Tiles place chars offset [] offset
  | cons {node : Node ρ} {nodes : List (Node ρ)} {start middle stop : Nat}
      (placed : node.range = some (place ⟨start, middle⟩)) (filled : start < middle)
      (spelled : ∀ string, node.layer = .text string →
        Covers place chars string.toList (place ⟨start, middle⟩))
      (apart : node.IsText → ∀ next ∈ nodes.head?, ¬ next.IsText)
      (rest : Tiles place chars middle nodes stop) : Tiles place chars start (node :: nodes) stop

/-- A start tag behind which the content of an element follows. -/
def StartsTag (tag part : List Char) : Prop := ∃ inside, part = '<' :: tag ++ inside ++ ['>']

/-- The closing tag of an element. -/
def ClosesTag (tag part : List Char) : Prop :=
  ∃ blanks, (∀ c ∈ blanks, Text.isBlank c = true) ∧ part = '<' :: '/' :: tag ++ blanks ++ ['>']

/-- The children of a node tile what they should: the body of a block its place, or if it has none
there is only one statement, which is no text; the parts of a quoted value what stands between its
quotes; and the children of an element what stands between its start tag and its closing tag, which
one that closes itself or is void has not. -/
def Node.Tiled (place : Span → ρ) (chars : List Char) (node : Node ρ) : Prop :=
  match node.layer with
  | .template body _ | .block body _ =>
    (∃ start stop, node.range = some (place ⟨start, stop⟩) ∧ Tiles place chars start body stop) ∨
      node.range = none ∧ ∃ next, body = [next] ∧ ¬ next.IsText
  | .concat parts => ∃ before quote inside after, (quote = '\'' ∨ quote = '"') ∧
    chars = before ++ (quote :: inside ++ [quote]) ++ after ∧
    node.range = some (place ⟨before.length, before.length + (quote :: inside ++ [quote]).length⟩) ∧
    Tiles place chars (before.length + 1) parts (before.length + 1 + inside.length)
  | .element tag selfClosing _ _ _ _ children =>
    if selfClosing || voidElements.contains tag then children = []
    else ∃ before startTag inside closing after, StartsTag tag.toList startTag ∧
      ClosesTag tag.toList closing ∧ chars = before ++ (startTag ++ inside ++ closing) ++ after ∧
      node.range =
        some (place ⟨before.length, before.length + (startTag ++ inside ++ closing).length⟩) ∧
      Tiles place chars (before.length + startTag.length) children
        (before.length + (startTag ++ inside).length)
  | _ => True

/-! ## Texts -/

theorem Input.endsText_takeText (more : input.takeText.2.atEnd = false) :
    Input.endsText input.takeText.2.rest = true := by
  obtain ⟨offset, rest⟩ := input
  cases rest with
  | nil => cases more
  | cons c rest =>
    have later : (Input.mk (offset + 1) rest).takeUntil endsText = (_, _) := rfl
    exact stops_of_takeUntil later more

/-- A text is made of the characters that it is read from. -/
private theorem Reads.spelled {node : Node Span} (reach : .ofText chars ≤ input)
    (reads : Reads depth .statement input (.node node) closed) (string : String)
    (layer : node.layer = .text string) :
    Covers id chars string.toList ⟨input.offset, closed.offset⟩ := by
  cases reads with
  | text plain bare visible untagged =>
    cases layer
    rw [String.toList_ofList]
    exact (Input.passes_takeText input).covers reach
  | mustacheComment opens comment =>
    obtain ⟨value, -, rfl⟩ := readMustacheComment_eq_ok.mp comment
    cases layer
  | comment plain bare opens comment =>
    obtain ⟨value, -, rfl⟩ := readComment_eq_ok.mp comment
    cases layer
  | block | mustacheStatement | element => cases layer

/-- A text goes on up to where something else begins. -/
private theorem Reads.endsText {node : Node Span}
    (reads : Reads depth .statement input (.node node) closed) (text : node.IsText)
    (more : closed.atEnd = false) : Input.endsText closed.rest = true := by
  obtain ⟨chars, layer⟩ := text
  cases reads with
  | text plain bare visible untagged => exact Input.endsText_takeText more
  | mustacheComment opens comment =>
    obtain ⟨value, -, rfl⟩ := readMustacheComment_eq_ok.mp comment
    cases layer
  | comment plain bare opens comment =>
    obtain ⟨value, -, rfl⟩ := readComment_eq_ok.mp comment
    cases layer
  | block | mustacheStatement | element => cases layer

/-- Where a text ends, no other text begins. -/
private theorem Reads.not_text {node : Node Span}
    (reads : Reads depth .statement input (.node node) closed) (goesOn : input.endsBody = false)
    (ends : Input.endsText input.rest = true) : ¬ node.IsText := by
  rintro ⟨chars, layer⟩
  cases reads with
  | text plain bare visible untagged =>
    obtain ⟨offset, rest⟩ := input
    simp only at ends
    unfold Input.endsText at ends
    split at ends
    · simp [Input.eat?, openBraces] at bare
    · simp [Input.eat?] at visible
    · rename_i c rest _
      rcases Bool.or_eq_true_iff.mp ends with begins | slash
      · simp [Input.eat?, Input.tagName?, begins] at untagged
      · simp [Input.endsBody, Input.sees, Input.eat?, beq_iff_eq.mp slash] at goesOn
    · cases ends
  | mustacheComment opens comment =>
    obtain ⟨value, -, rfl⟩ := readMustacheComment_eq_ok.mp comment
    cases layer
  | comment plain bare opens comment =>
    obtain ⟨value, -, rfl⟩ := readComment_eq_ok.mp comment
    cases layer
  | block | mustacheStatement | element => cases layer

/-! ## Bodies -/

private theorem atEnd_of_goesOn (goesOn : input.endsBody = false) : input.atEnd = false := by
  simp only [Input.endsBody, Bool.or_eq_false_iff] at goesOn
  exact goesOn.1.1.1

/-- The statements of a body tile what it was read from. -/
theorem Reads.tiles_of_body {nodes : List (Node Span)} (reach : .ofText chars ≤ input)
    (reads : Reads depth .body input (.list nodes) closed) :
    Tiles id chars input.offset nodes closed.offset := by
  induction depth generalizing input nodes with
  | zero => cases reads
  | succ depth ih =>
    cases reads with
    | noStatements ends => exact .nil _
    | statements goesOn head rest =>
      have progress := head.lt fun _ => atEnd_of_goesOn goesOn
      refine .cons head.range (Input.lt_iff.mp progress).2 (head.spelled reach) ?_
        (ih (reach.trans head.le) rest)
      intro text next first
      cases depth with
      | zero => cases rest
      | succ depth =>
        cases rest with
        | noStatements ends => cases first
        | statements further following others =>
          cases first
          exact following.not_text further (head.endsText text (atEnd_of_goesOn further))

/-! ## Quoted values -/

/-- Text before something else tiles with it. -/
private theorem tiles_textPiece {nodes : List (Node Span)} {piece : List Char} {last : Nat}
    (reach : .ofText chars ≤ input) (passes : input.Passes piece stop)
    (rest : Tiles id chars stop.offset nodes last) (apart : ∀ next ∈ nodes.head?, ¬ next.IsText) :
    Tiles id chars input.offset (textPiece input stop piece ++ nodes) last := by
  unfold textPiece
  cases piece with
  | nil =>
    have same : stop.offset = input.offset := passes.2
    rwa [same] at rest
  | cons c piece =>
    have order : input.offset < stop.offset := by
      rw [passes.2, List.length_cons]
      omega
    refine .cons rfl order ?_ (fun _ => apart) rest
    rintro string ⟨⟩
    rw [String.toList_ofList]
    exact passes.covers reach

/-- The parts of a quoted value tile what stands before its closing quote. -/
theorem Reads.tiles_of_pieces {quote : Char} {nodes : List (Node Span)}
    (reach : .ofText chars ≤ input)
    (reads : Reads depth (.pieces quote) input (.list nodes) closed) :
    ∃ inside stop, input.Passes inside stop ∧ stop.Passes [quote] closed ∧
      Tiles id chars input.offset nodes stop.offset := by
  induction depth generalizing input nodes with
  | zero => cases reads
  | succ depth ih =>
    cases reads with
    | lastPiece upTo more closes =>
      have passes := Input.passes_of_takeUntil upTo
      have tiles := tiles_textPiece reach passes (.nil _) (by rintro _ ⟨⟩)
      rw [List.append_nil] at tiles
      exact ⟨_, _, passes, Input.passes_of_eat? closes, tiles⟩
    | pieces upTo more open_ invoked rest =>
      have passes := Input.passes_of_takeUntil upTo
      obtain ⟨opened, opens⟩ := eat?_openBraces_of_piece upTo more open_
      rw [Input.skipOptional, opens, Option.getD_some] at invoked
      have order := (Input.lt_of_eat? opens).trans_le invoked.le
      obtain ⟨invocation, between⟩ := Input.exists_passes order.le
      obtain ⟨inside, last, further, closes, tiles⟩ := ih ((reach.trans passes.le).trans order.le) rest
      refine ⟨_, last, (passes.trans between).trans further, closes, tiles_textPiece reach passes
        (.cons rfl (Input.lt_iff.mp order).2 (by rintro _ ⟨⟩) ?_ tiles) ?_⟩
      · rintro ⟨_, layer⟩
        cases layer
      · rintro next ⟨⟩ ⟨_, layer⟩
        cases layer

/-! ## All nodes -/

private theorem tiled_of_quotedValue {quote : Char} {pieces : List (Node Span)}
    (reach : .ofText chars ≤ input) (quoted : quoteAhead input = some quote)
    (inside : Reads depth (.pieces quote) (input.skipOptional [quote]) (.list pieces) closed) :
    (Node.between input closed (quotedValue pieces)).Tiled id chars := by
  by_cases invoked : pieces.any isMustache
  swap
  · simp only [Node.Tiled, Node.between, Node.layer, quotedValue, invoked]
    trivial
  obtain ⟨rest, ahead, single⟩ := quoteAhead_eq_some.mp quoted
  rw [Input.skipOptional_of_head ahead] at inside
  have first : input.Passes [quote] ⟨input.offset + 1, rest⟩ := ⟨ahead, rfl⟩
  obtain ⟨between, stop, passes, closes, tiles⟩ := inside.tiles_of_pieces (reach.trans first.le)
  have whole := (first.trans passes).trans closes
  obtain ⟨before, after, offset, source⟩ := whole.source reach
  simp only [Node.Tiled, Node.between, Node.layer, quotedValue, invoked, ↓reduceIte]
  refine ⟨before, quote, between, after, single, source, ?_, ?_⟩
  · rw [Node.range, whole.2, offset]
    rfl
  · rw [← offset]
    rw [passes.2] at tiles
    exact tiles

private theorem tiled_of_element {tag : List Char} {content : TagContent}
    {children : List (Node Span)} (reach : .ofText chars ≤ input)
    (tagged : (input.eat? ['<']).bind Input.tagName? = some (tag, behind))
    (read : Reads depth (.element tag) behind (.element content children) closed) :
    (Node.between input closed (elementLayer tag content children)).Tiled id chars := by
  obtain ⟨opened, opens, named⟩ := Option.bind_eq_some_iff.mp tagged
  have name := (Input.passes_of_eat? opens).trans (Input.passes_of_tagName? named)
  cases read with
  | bareElement startTag bare =>
    unfold isBare at bare
    simp only [Node.Tiled, Node.between, Node.layer, elementLayer, bare, ↓reduceIte]
  | filledElement startTag filled inside closes ends =>
    unfold isBare at filled
    have open_ : content.selfClosing = false := (Bool.or_eq_false_iff.mp filled).1
    obtain ⟨within, passes⟩ := startTag.passes_of_tagContent
    obtain ⟨between, children⟩ := Input.exists_passes inside.le
    obtain ⟨blanks, blank, spaced⟩ := Input.passes_skipBlank _
    rw [open_, if_neg Bool.false_ne_true] at passes
    have content := (name.trans passes).trans children
    have closing := ((Input.passes_of_eat? closes).trans spaced).trans (Input.passes_of_eat? ends)
    have whole := content.trans closing
    obtain ⟨before, after, offset, source⟩ := whole.source reach
    simp only [Node.Tiled, Node.between, Node.layer, elementLayer, filled, Bool.false_eq_true,
      ↓reduceIte, String.toList_ofList]
    refine ⟨before, _, between, _, after, ⟨within, ?_⟩, ⟨blanks, blank, rfl⟩, source, ?_, ?_⟩
    · simp
    · rw [Node.range, whole.2, offset]
      rfl
    · have tiles := inside.tiles_of_body (reach.trans (name.trans passes).le)
      rw [content.2, (name.trans passes).2, offset] at tiles
      exact tiles

private theorem Node.Tiled.of_token {ρ : Type} {place : Span → ρ} {node : Node ρ}
    (token : node.layer.IsToken) : node.Tiled place chars := by
  obtain ⟨range, layer⟩ := node
  cases layer with
  | template | block | concat | element => cases token
  | _ => trivial

private theorem tiled_of_single {production : Production} {node : Node Span}
    (reach : .ofText chars ≤ input) (reads : Reads depth production input (.node node) closed) :
    node.Tiled id chars := by
  cases reads with
  | quotedValue plain quoted inside => exact tiled_of_quotedValue reach quoted inside
  | element plain bare visible tagged read => exact tiled_of_element reach tagged read
  | string plain quoted read => exact .of_token (isToken_of_readString read)
  | word plain bare read => exact .of_token (isToken_of_readWord read)
  | mustacheComment opens comment => exact .of_token (isToken_of_readMustacheComment comment)
  | comment plain bare opens comment => exact .of_token (isToken_of_readComment comment)
  | subExpression | mustacheValue | bareValue | valueless | attr | block | mustacheStatement
  | text => trivial

/-- Whatever a node was made from, its children tile what they should. -/
theorem Origin.tiled {node : Node Span} (origin : Origin (.ofText chars) node) :
    node.Tiled id chars := by
  cases origin with
  | single reach reads => exact tiled_of_single reach reads
  | whole body => exact .inl ⟨_, _, rfl, body.tiles_of_body (le_refl _)⟩
  | block reach body => exact .inl ⟨_, _, rfl, body.tiles_of_body reach⟩
  | chain link =>
    cases link
    refine .inr ⟨rfl, _, rfl, ?_⟩
    rintro ⟨_, layer⟩
    cases layer
  | comment reach opens comment => exact .of_token (isToken_of_readMustacheComment comment)
  | link link =>
    cases link
    trivial
  | pair | hash | mustache | modifier | piece | unvalued => trivial

/-! ## Positions -/

theorem Node.layer_mapRange_eq_text (move : ρ → σ) {node : Node ρ} {string : String} :
    (node.mapRange move).layer = .text string ↔ node.layer = .text string := by
  rw [layer_mapRange]
  cases node.layer <;> simp [Layer.map]

theorem Node.isText_mapRange (move : ρ → σ) (node : Node ρ) :
    (node.mapRange move).IsText ↔ node.IsText :=
  exists_congr fun _ => layer_mapRange_eq_text move

theorem Tiles.mapRange (move : ρ → σ) {nodes : List (Node ρ)} {start stop : Nat}
    (tiles : Tiles place chars start nodes stop) :
    Tiles (move ∘ place) chars start (nodes.map (Node.mapRange move)) stop := by
  induction tiles with
  | nil offset => exact .nil offset
  | cons placed filled spelled apart rest ih =>
    refine .cons (by rw [Node.range_mapRange, placed]; rfl) filled ?_ ?_ ih
    · intro string layer
      exact (spelled string ((Node.layer_mapRange_eq_text move).mp layer)).map move
    · rw [Node.isText_mapRange, List.head?_map]
      intro text next first
      obtain ⟨other, here, rfl⟩ := Option.map_eq_some_iff.mp first
      rw [Node.isText_mapRange]
      exact apart text other here

/-- Children tile what they should however the nodes are placed. -/
theorem Node.Tiled.mapRange (move : ρ → σ) {node : Node ρ} (tiled : node.Tiled place chars) :
    (node.mapRange move).Tiled (move ∘ place) chars := by
  obtain ⟨range, layer⟩ := node
  rw [mapRange_mk]
  cases layer with
  | template body params | block body params =>
    rcases tiled with ⟨start, stop, placed, tiles⟩ | ⟨unplaced, next, rfl, single⟩
    · exact .inl ⟨start, stop, congrArg (Option.map move) placed, tiles.mapRange move⟩
    · refine .inr ⟨congrArg (Option.map move) unplaced, _, rfl, ?_⟩
      rwa [isText_mapRange]
  | concat parts =>
    obtain ⟨before, quote, inside, after, single, source, placed, tiles⟩ := tiled
    exact ⟨before, quote, inside, after, single, source, congrArg (Option.map move) placed,
      tiles.mapRange move⟩
  | element tag selfClosing attributes modifiers comments params children =>
    simp only [Tiled, Node.layer, Layer.map] at tiled ⊢
    split at tiled
    · rename_i bare
      rw [if_pos bare, tiled, List.map_nil]
    · rename_i filled
      rw [if_neg filled]
      obtain ⟨before, startTag, inside, closing, after, starts, closes, source, placed, tiles⟩ := tiled
      exact ⟨before, startTag, inside, closing, after, starts, closes, source,
        congrArg (Option.map move) placed, tiles.mapRange move⟩
  | _ => trivial

/-- Texts that tile a part of a text are made of the characters that they stand over. -/
theorem Tiles.covers {nodes : List (Node ρ)} {node : Node ρ} {start stop : Nat} {string : String}
    {here : ρ} (tiles : Tiles place chars start nodes stop) (member : node ∈ nodes)
    (layer : node.layer = .text string) (placed : node.range = some here) :
    Covers place chars string.toList here := by
  induction tiles with
  | nil offset => cases member
  | cons first filled spelled apart rest ih =>
    rcases List.mem_cons.mp member with rfl | member
    · rw [first] at placed
      cases placed
      exact spelled string layer
    · exact ih member

/-- A text in a body, among the children of an element or among the parts of a quoted value is made of
the characters that it stands over. -/
theorem Node.Tiled.covers {parent node : Node ρ} {slot : Slot} {index : Nat} {string : String}
    {here : ρ} (tiled : parent.Tiled place chars) (held : parent.child? slot = some node)
    (listed : slot = .body index ∨ slot = .children index ∨ slot = .parts index)
    (layer : node.layer = .text string) (placed : node.range = some here) :
    Covers place chars string.toList here := by
  obtain ⟨range, outer⟩ := parent
  have held := child?_eq_some.mp held
  cases outer with
  | template body params | block body params =>
    have member := (mem_numbered held).2
    rcases tiled with ⟨start, stop, -, tiles⟩ | ⟨-, next, rfl, single⟩
    · exact tiles.covers member layer placed
    · rw [List.mem_singleton.mp member] at layer
      exact absurd ⟨string, layer⟩ single
  | concat parts =>
    obtain ⟨before, quote, inside, after, -, -, -, tiles⟩ := tiled
    exact tiles.covers (mem_numbered held).2 layer placed
  | element tag selfClosing attributes modifiers comments params children =>
    simp only [Node.layer, Layer.slots, List.mem_append] at held
    rcases held with ((held | held) | held) | held
    all_goals obtain ⟨⟨number, rfl⟩, member⟩ := mem_numbered held
    · simp at listed
    · simp at listed
    · simp at listed
    · simp only [Tiled, Node.layer] at tiled
      split at tiled
      · rw [tiled] at member
        cases member
      · obtain ⟨before, startTag, inside, closing, after, -, -, -, -, tiles⟩ := tiled
        exact tiles.covers member layer placed
  | _ =>
    rcases listed with rfl | rfl | rfl <;>
      simp [Node.layer, Layer.slots, Layer.callSlots, numbered] at held

/-- The statements of a template tile its whole text, and below it the children of every node tile
what they should. -/
structure Tiled (text : String) (tree : Node Range) : Prop where
  whole : ∃ body params, tree.layer = .template body params ∧
    Tiles (Text.rangeOf (Text.lineStarts text.toList)) text.toList 0 body text.toList.length
  parts {address : List Slot} {node : Node Range} (found : tree.at? address = some node) :
    node.Tiled (Text.rangeOf (Text.lineStarts text.toList)) text.toList

/-- No character of a template is lost and none is read twice. -/
theorem parse_tiled {text : String} {tree : Node Range} (parsed : parse text = .ok tree) :
    Tiled text tree := by
  obtain ⟨spans, read, rfl⟩ := parse_eq_ok parsed
  constructor
  · obtain ⟨statements, stop, reads, ends, rfl⟩ := parseSpans_eq_ok.mp read
    have tiles := (reads.tiles_of_body (le_refl _)).mapRange
      (Text.rangeOf (Text.lineStarts text.toList))
    rw [Input.offset_of_atEnd reads.le ends] at tiles
    exact ⟨_, [], by rw [Node.layer_mapRange]; rfl, tiles⟩
  · intro address node found
    rw [Node.at?_mapRange, Option.map_eq_some_iff] at found
    obtain ⟨part, found, rfl⟩ := found
    exact (parseSpans_origin read found).tiled.mapRange _

theorem tiled_of_mixed_template : ∃ tree,
    parse "<3<p a='b{{c}}'>d\x7b\x7b#e\x7d\x7df\x7b\x7b/e\x7d\x7d</p >" = .ok tree ∧
      Tiled "<3<p a='b{{c}}'>d\x7b\x7b#e\x7d\x7df\x7b\x7b/e\x7d\x7d</p >" tree := by
  have read : (parse "<3<p a='b{{c}}'>d\x7b\x7b#e\x7d\x7df\x7b\x7b/e\x7d\x7d</p >").isOk = true := by
    decide +kernel
  cases parsed : parse "<3<p a='b{{c}}'>d\x7b\x7b#e\x7d\x7df\x7b\x7b/e\x7d\x7d</p >" with
  | error fault =>
    rw [parsed] at read
    cases read
  | ok tree => exact ⟨tree, rfl, parse_tiled parsed⟩

end EmberAssist.Template
