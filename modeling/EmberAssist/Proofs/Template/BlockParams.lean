import EmberAssist.Proofs.Template.Retyping
import EmberAssist.Proofs.Template.Scoping
import EmberAssist.Proofs.Template.Tiling

/-! Where the names of block parameters come from. A list of them goes from a bar to the next bar of
the text, whatever stands between the two. -/
namespace EmberAssist.Template

open Text

variable {ρ σ : Type} {place : Span → ρ} {chars part : List Char} {names : List String}
variable {depth : Nat} {root input opened behind next stop closed : Input}

/-! ## Lists of names -/

/-- Whatever is not blank is part of a word. -/
private theorem exists_wordsAfter_iff {c : Char} (solid : isBlank c = false) (word : List Char) :
    (∃ name ∈ wordsAfter word chars, c ∈ name) ↔ c ∈ word ∨ c ∈ chars := by
  induction chars generalizing word with
  | nil => cases word <;> simp [wordsAfter]
  | cons d rest ih =>
    simp only [wordsAfter]
    by_cases blank : isBlank d
    · have differ : c ≠ d := by
        rintro rfl
        rw [blank] at solid
        cases solid
      cases word <;> simp [blank, ih, differ]
    · simp [blank, ih, or_assoc]

/-- A list of block parameters: names between two bars, divided by blanks. -/
def ListsParams (part : List Char) (names : List String) : Prop :=
  ∃ blanks inside, part = ['a', 's'] ++ blanks ++ '|' :: (inside ++ ['|']) ∧ blanks ≠ [] ∧
    (∀ c ∈ blanks, isBlank c = true) ∧ '|' ∉ inside ∧ names = (words inside).map String.ofList

/-- The characters that begin and end tags. -/
def markup : List Char := ['<', '>', '{', '}']

/-- A name holds markup exactly if there is some between the bars. -/
theorem ListsParams.exists_mem_iff (lists : ListsParams part names) {c : Char} (mark : c ∈ markup) :
    (∃ name ∈ names, c ∈ name.toList) ↔ c ∈ part := by
  obtain ⟨blanks, inside, rfl, -, blank, -, rfl⟩ := lists
  have solid : isBlank c = false ∧ c ≠ 'a' ∧ c ≠ 's' ∧ c ≠ '|' := by
    simp only [markup, List.mem_cons, List.not_mem_nil, or_false] at mark
    rcases mark with rfl | rfl | rfl | rfl
    all_goals exact ⟨rfl, by simp⟩
  have outside : c ∉ blanks := by
    intro member
    rw [blank c member] at solid
    cases solid.1
  have held : (∃ word ∈ words inside, c ∈ word) ↔ c ∈ [] ∨ c ∈ inside :=
    exists_wordsAfter_iff solid.1 []
  simp only [List.mem_map, exists_exists_and_eq_and, String.toList_ofList, held]
  simp [solid, outside]

theorem Input.blockParams?_eq_some : input.blockParams? = some (names, behind) ↔
    ∃ part, ListsParams part names ∧ input.Passes part behind := by
  constructor
  · intro read
    simp only [blockParams?, bind, Option.bind_eq_some_iff, pure, Option.some.injEq,
      Prod.mk.injEq, Prod.exists] at read
    obtain ⟨word, spelled, blanks, spaced, taken, opened, opens, closed, closes, rfl, rfl⟩ := read
    cases run : opened.takeWhile (· != '|') with
    | mk inside named =>
      rw [run] at closes
      have whole := (((passes_of_eat? spelled).trans (passes_of_takeSome? taken)).trans
        (passes_of_eat? opens)).trans ((passes_of_takeWhile run).trans (passes_of_eat? closes))
      obtain ⟨spaces, filled⟩ := takeSome?_eq_some.mp taken
      refine ⟨_, ⟨blanks, inside, ?_, filled, (takeWhile_eq.mp spaces).2.2.1, ?_, rfl⟩, whole⟩
      · simp
      · intro bar
        simpa using (takeWhile_eq.mp run).2.2.1 _ bar
  · rintro ⟨part, ⟨blanks, inside, rfl, filled, blank, unbarred, rfl⟩, rest, offset⟩
    have names : ∀ c ∈ inside, (c != '|') = true := by
      intro c member
      rw [bne_iff_ne]
      rintro rfl
      exact unbarred member
    have spaced (later : List Char) : ∀ c ∈ ('|' :: later).head?, isBlank c = false := by
      rintro c ⟨⟩
      rfl
    have stopped (later : List Char) : ∀ c ∈ ('|' :: later).head?, (c != '|') = false := by
      rintro c ⟨⟩
      rfl
    have start : input =
        ⟨input.offset, 'a' :: 's' :: (blanks ++ '|' :: (inside ++ '|' :: behind.rest))⟩ :=
      congrArg (Input.mk input.offset) (by rw [rest]; simp)
    have same : Input.mk (input.offset + 1 + 1 + blanks.length + 1 + inside.length + 1) behind.rest =
        behind := by
      cases behind
      simp only [List.length_append, List.length_cons, List.length_nil, mk.injEq, and_true] at offset ⊢
      omega
    rw [start]
    simpa [blockParams?, eat?, takeSome?_append filled blank (spaced _),
      takeWhile_append names (stopped _)] using same

/-! ## Lists in tags -/

/-- What stands behind the invocation in a tag that opens or continues a block: perhaps a list of
block parameters, and the braces that close the tag. -/
def EndsBlockTag (part : List Char) (names : List String) : Prop :=
  ∃ left list right closer, (∀ c ∈ left ++ right, isBlank c = true) ∧
    (list = [] ∧ names = [] ∨ ListsParams list names) ∧ closer ∈ Input.closers ∧
    part = left ++ list ++ right ++ closer

/-- What stands in a start tag behind its name: nodes and lists of block parameters, one behind the
other with blanks between them, and the end of the tag. No node begins where a list stands, and of
several lists the last counts. -/
inductive FillsTag (place : Span → ρ) (chars : List Char) (selfClosing : Bool) :
    Nat → List (Node ρ) → Option (List String) → Nat → Prop where
  | ended {blanks : List Char} {start stop : Nat} (blank : ∀ c ∈ blanks, isBlank c = true)
      (ends : Covers id chars (blanks ++ if selfClosing then ['/', '>'] else ['>'])
        ⟨start, stop⟩) :
      FillsTag place chars selfClosing start [] none stop
  | node {node : Node ρ} {nodes : List (Node ρ)} {names : Option (List String)}
      {blanks : List Char} {start begins middle stop : Nat}
      (blank : ∀ c ∈ blanks, isBlank c = true) (spaced : Covers id chars blanks ⟨start, begins⟩)
      (unlisted : ∀ part these ends, ListsParams part these →
        ¬ Covers id chars part ⟨begins, ends⟩)
      (placed : node.range = some (place ⟨begins, middle⟩))
      (rest : FillsTag place chars selfClosing middle nodes names stop) :
      FillsTag place chars selfClosing start (node :: nodes) names stop
  | list {nodes : List (Node ρ)} {names : Option (List String)} {these : List String}
      {blanks part : List Char} {start middle stop : Nat}
      (blank : ∀ c ∈ blanks, isBlank c = true) (lists : ListsParams part these)
      (stands : Covers id chars (blanks ++ part) ⟨start, middle⟩)
      (rest : FillsTag place chars selfClosing middle nodes names stop) :
      FillsTag place chars selfClosing start nodes (some (names.getD these)) stop

/-- An element declares what is listed in its start tag, between its name and its children. The
program of a block declares what is listed between the invocation and the program itself, and what
follows an else declares nothing. -/
def Node.Declares (place : Span → ρ) (chars : List Char) (node : Node ρ) : Prop :=
  match node.layer with
  | .element tag selfClosing attributes modifiers comments params children =>
    ∃ before after nodes names tagEnd contentEnd stop, chars = before ++ '<' :: tag.toList ++ after ∧
      node.range = some (place ⟨before.length, stop⟩) ∧
      nodes.Perm (attributes ++ modifiers ++ comments) ∧
      FillsTag place chars selfClosing (before.length + ('<' :: tag.toList).length) nodes names
        tagEnd ∧
      params = names.getD [] ∧ Tiles place chars tagEnd children contentEnd
  | .blockCall call program inverse =>
    (∃ last ∈ call.nodes, ∃ before part after begins stop statements names,
      chars = before ++ part ++ after ∧ last.range = some (place ⟨begins, before.length⟩) ∧
      EndsBlockTag part names ∧
      program = .mk (some (place ⟨before.length + part.length, stop⟩)) (.block statements names)) ∧
    ∀ block ∈ inverse, block.layer.declared = []
  | _ => True

/-! ## Start tags -/

private theorem not_covers_of_unlisted (reach : .ofText chars ≤ input)
    (undeclared : input.blockParams? = none) (lists : ListsParams part names) (ends : Nat) :
    ¬ Covers id chars part ⟨input.offset, ends⟩ := by
  rintro ⟨before, after, source, same⟩
  have begins : before.length = input.offset := (congrArg Span.start same).symm
  rw [List.append_assoc] at source
  have here := Input.eq_of_source reach source begins
  have passes : input.Passes part ⟨before.length + part.length, after⟩ := by
    rw [here]
    exact ⟨rfl, rfl⟩
  have read := Input.blockParams?_eq_some.mpr ⟨part, lists, passes⟩
  rw [undeclared] at read
  cases read

private theorem blockParams?_of_braces (opens : input.eat? openBraces = some opened) :
    input.blockParams? = none := by
  refine Option.eq_none_iff_forall_not_mem.mpr ?_
  rintro ⟨names, behind⟩ read
  obtain ⟨part, ⟨blanks, inside, rfl, -⟩, rest, -⟩ := Input.blockParams?_eq_some.mp read
  rw [(Input.eat?_eq_some.mp opens).1] at rest
  cases rest

theorem Reads.fills_of_tagContent {content : TagContent} (reach : .ofText chars ≤ input)
    (reads : Reads depth .tagContent input (.content content) closed) :
    ∃ nodes, nodes.Perm content.nodes ∧
      FillsTag id chars content.selfClosing input.offset nodes content.blockParams
        closed.offset := by
  induction depth generalizing input content with
  | zero => cases reads
  | succ depth ih =>
    obtain ⟨blanks, blank, spaced⟩ := Input.passes_skipBlank input
    have start := reach.trans spaced.le
    cases reads with
    | selfClosed more closes | tagEnd more open_ closes =>
      exact ⟨[], .nil, .ended blank ((spaced.trans (Input.passes_of_eat? closes)).covers reach)⟩
    | tagComment stays opens comment rest =>
      have after := (Input.le_of_commentOpen? opens).trans (le_of_readMustacheComment comment)
      obtain ⟨nodes, same, fills⟩ := ih (start.trans after) rest
      obtain ⟨value, -, rfl⟩ := readMustacheComment_eq_ok.mp comment
      obtain ⟨_, found, -⟩ := Option.map_eq_some_iff.mp opens
      obtain ⟨_, found, -⟩ := Option.bind_eq_some_iff.mp found
      obtain ⟨_, braces, -⟩ := Option.map_eq_some_iff.mp found
      exact ⟨_, (same.cons _).trans (TagContent.nodes_withComment _ _), .node blank
        (spaced.covers reach) (fun part these ends lists =>
          not_covers_of_unlisted start (blockParams?_of_braces braces) lists ends) rfl fills⟩
    | tagModifier stays plain opens invoked rest =>
      have after := (Input.le_of_eat? opens).trans invoked.le
      obtain ⟨nodes, same, fills⟩ := ih (start.trans after) rest
      exact ⟨_, (same.cons _).trans (TagContent.nodes_withModifier _ _), .node blank
        (spaced.covers reach) (fun part these ends lists =>
          not_covers_of_unlisted start (blockParams?_of_braces opens) lists ends) rfl fills⟩
    | tagParams stays plain bare declared rest =>
      obtain ⟨part, lists, passes⟩ := Input.blockParams?_eq_some.mp declared
      obtain ⟨nodes, same, fills⟩ := ih (start.trans passes.le) rest
      exact ⟨nodes, same, .list blank lists ((spaced.trans passes).covers reach) fills⟩
    | tagAttribute stays plain bare undeclared taken rest =>
      obtain ⟨nodes, same, fills⟩ := ih (start.trans taken.le) rest
      exact ⟨_, same.cons _, .node blank (spaced.covers reach) (fun part these ends lists =>
        not_covers_of_unlisted start undeclared lists ends) taken.range fills⟩

private theorem declares_of_element {tag : List Char} {content : TagContent}
    {children : List (Node Span)} (reach : .ofText chars ≤ input)
    (tagged : (input.eat? ['<']).bind Input.tagName? = some (tag, behind))
    (read : Reads depth (.element tag) behind (.element content children) closed) :
    (Node.between input closed (elementLayer tag content children)).Declares id chars := by
  obtain ⟨opened, opens, named⟩ := Option.bind_eq_some_iff.mp tagged
  have name := (Input.passes_of_eat? opens).trans (Input.passes_of_tagName? named)
  have begins := reach.trans name.le
  obtain ⟨before, after, offset, source⟩ := name.source reach
  have from_ : behind.offset = before.length + ('<' :: tag).length := by
    rw [name.2, offset]
    rfl
  obtain ⟨nodes, tagEnd, contentEnd, same, fills, tiles⟩ : ∃ nodes tagEnd contentEnd,
      nodes.Perm content.nodes ∧
        FillsTag id chars content.selfClosing behind.offset nodes content.blockParams tagEnd ∧
        Tiles id chars tagEnd children contentEnd := by
    cases read with
    | bareElement startTag bare =>
      obtain ⟨nodes, same, fills⟩ := startTag.fills_of_tagContent begins
      exact ⟨nodes, _, _, same, fills, .nil _⟩
    | filledElement startTag filled inside closes ends =>
      obtain ⟨nodes, same, fills⟩ := startTag.fills_of_tagContent begins
      exact ⟨nodes, _, _, same, fills, inside.tiles_of_body (begins.trans startTag.le)⟩
  rw [from_] at fills
  simp only [Node.Declares, Node.between, Node.layer, elementLayer, String.toList_ofList]
  exact ⟨before, after, nodes, content.blockParams, tagEnd, contentEnd, closed.offset, source,
    by rw [offset]; rfl, same, fills, rfl, tiles⟩

/-! ## Block tags -/

/-- The last of several nodes is the first, or else the last of the others. -/
private theorem ends_of_cons {first : Node Span} {others : List (Node Span)} {begins : Nat}
    (placed : first.range = some ⟨begins, next.offset⟩) (empty : others = [] → stop = next)
    (later : ∀ last ∈ others.getLast?, ∃ begins, last.range = some ⟨begins, stop.offset⟩) :
    ∀ last ∈ (first :: others).getLast?, ∃ begins, last.range = some ⟨begins, stop.offset⟩ := by
  cases others with
  | nil =>
    obtain rfl := empty rfl
    rintro _ ⟨⟩
    exact ⟨begins, placed⟩
  | cons second others => rwa [List.getLast?_cons_cons]

/-- Arguments end where the last of them does, but for blanks. -/
private theorem Reads.ends_of_arguments {afterNamed : Bool} {params pairs : List (Node Span)}
    (reads : Reads depth (.arguments afterNamed) input (.arguments params pairs) closed) :
    ∃ stop, input ≤ stop ∧ closed = stop.skipBlank ∧ (params ++ pairs = [] → stop = input) ∧
      ∀ last ∈ (params ++ pairs).getLast?, ∃ begins, last.range = some ⟨begins, stop.offset⟩ := by
  induction depth generalizing input afterNamed params pairs with
  | zero => cases reads
  | succ depth ih =>
    cases reads with
    | noArguments more ends => exact ⟨input, le_refl _, rfl, fun _ => rfl, by simp⟩
    | named goesOn named assigned rest =>
      obtain rfl := rest.no_params
      obtain ⟨stop, order, same, empty, last⟩ := ih rest
      have first := ((Input.le_skipBlank _).trans (Input.le_of_argumentName? named)).trans assigned.le
      exact ⟨stop, first.trans order, same, nofun, ends_of_cons rfl empty last⟩
    | positional goesOn unnamed given rest =>
      obtain ⟨stop, order, same, empty, last⟩ := ih rest
      have first := (Input.le_skipBlank _).trans given.le
      exact ⟨stop, first.trans order, same, nofun, ends_of_cons given.range empty last⟩

/-- An invocation ends where the last of its nodes does, but for blanks. -/
private theorem Reads.ends_of_call {call : Call (Node Span)}
    (reads : Reads depth .call input (.call call) closed) :
    ∃ last ∈ call.nodes, ∃ begins stop, last.range = some ⟨begins, stop.offset⟩ ∧ input ≤ stop ∧
      closed = stop.skipBlank := by
  cases reads with
  | @call _ _ behind _ callee params pairs called given =>
    obtain ⟨stop, order, same, empty, last⟩ := given.ends_of_arguments
    have further := called.le.trans order
    rcases List.eq_nil_or_concat' pairs with rfl | ⟨front, pair, rfl⟩
    · rw [List.append_nil] at empty last
      rcases List.eq_nil_or_concat' params with rfl | ⟨front, param, rfl⟩
      · obtain rfl := empty rfl
        exact ⟨callee, by simp [Call.nodes], _, _, called.range, further, same⟩
      · obtain ⟨begins, placed⟩ := last param (by simp)
        exact ⟨param, by simp [Call.nodes], begins, stop, placed, further, same⟩
    · obtain ⟨begins, placed⟩ := last pair (by simp)
      obtain ⟨first, final, -, ends, hash⟩ := hashOf_eq (by simp) given.placed.2
      rw [List.flatMap_append, List.flatMap_singleton, Node.front_of_range placed,
        List.getLast?_concat] at ends
      cases ends
      exact ⟨hashOf (front ++ [pair]), by simp [Call.nodes], first.start, stop, by rw [hash]; rfl,
        further, same⟩

/-- What stands behind the invocation in a block's tag. -/
private theorem Reads.ends_of_blockTag {call : Call (Node Span)} {params : List String}
    (reads : Reads depth .blockTag input (.blockTag call params) closed) :
    ∃ last ∈ call.nodes, ∃ begins stop part, last.range = some ⟨begins, stop.offset⟩ ∧
      input ≤ stop ∧ stop.Passes part closed ∧ EndsBlockTag part params := by
  cases reads with
  | @blockTag _ _ behind next _ _ _ invoked declared closes =>
    obtain ⟨last, member, begins, stop, placed, order, rfl⟩ := invoked.ends_of_call
    obtain ⟨first, firstBlank, one⟩ := Input.passes_skipBlank stop
    obtain ⟨second, secondBlank, two⟩ := Input.passes_skipBlank stop.skipBlank
    obtain ⟨list, lists, three⟩ : ∃ list, (list = [] ∧ params = [] ∨ ListsParams list params) ∧
        stop.skipBlank.skipBlank.Passes list next := by
      cases read : stop.skipBlank.skipBlank.blockParams? with
      | none =>
        rw [read] at declared
        cases declared
        exact ⟨[], .inl ⟨rfl, rfl⟩, .refl _⟩
      | some found =>
        rw [read] at declared
        cases declared
        obtain ⟨part, lists, passes⟩ := Input.blockParams?_eq_some.mp read
        exact ⟨part, .inr lists, passes⟩
    obtain ⟨right, rightBlank, four⟩ := Input.passes_skipBlank next
    obtain ⟨tilde, optional, five⟩ := Input.passes_skipOptional ['~'] next.skipBlank
    have six := Input.passes_of_eat? closes
    refine ⟨last, member, begins, stop, _, placed, order,
      ((((one.trans two).trans three).trans four).trans (five.trans six)),
      first ++ second, list, right, _, ?_, lists, ?_, rfl⟩
    · intro c held
      simp only [List.mem_append] at held
      rcases held with (held | held) | held
      · exact firstBlank c held
      · exact secondBlank c held
      · exact rightBlank c held
    · rcases optional with rfl | rfl <;> simp [Input.closers]

private theorem Reads.declared_of_blockTail {name : Option String} {params : List String}
    {program : Node Span} {inverse : Option (Node Span)}
    (reads : Reads depth (.blockTail name params) input (.blockTail program inverse) closed) :
    (∃ stop statements, program = .between input stop (.block statements params)) ∧
      ∀ block ∈ inverse, block.layer.declared = [] := by
  cases reads with
  | blockEnd body noElse closes same => exact ⟨⟨_, _, rfl⟩, nofun⟩
  | blockElse body otherwise last ends otherBody noElse closes same =>
    exact ⟨⟨_, _, rfl⟩, by rintro _ ⟨⟩; rfl⟩
  | blockChain body otherwise chained tag tail => exact ⟨⟨_, _, rfl⟩, by rintro _ ⟨⟩; rfl⟩

private theorem declares_of_block {call : Call (Node Span)} {program : Node Span}
    {inverse : Option (Node Span)} {params : List String} {name : Option String}
    {range : Option Span} (reach : .ofText chars ≤ input)
    (tag : Reads depth .blockTag input (.blockTag call params) behind)
    (tail : Reads depth (.blockTail name params) behind (.blockTail program inverse) closed) :
    Node.Declares id chars (.mk range (.blockCall call program inverse)) := by
  obtain ⟨⟨stop, statements, rfl⟩, inverse⟩ := tail.declared_of_blockTail
  obtain ⟨last, member, begins, ends, part, placed, order, passes, closes⟩ := tag.ends_of_blockTag
  obtain ⟨before, after, offset, source⟩ := passes.source (reach.trans order)
  refine ⟨⟨last, member, before, part, after, begins, stop.offset, statements, params, source,
    by rw [placed, offset]; rfl, closes, ?_⟩, inverse⟩
  rw [Node.between, passes.2, offset]
  rfl

/-! ## All nodes -/

private theorem Node.Declares.of_token {node : Node ρ} (token : node.layer.IsToken) :
    node.Declares place chars := by
  obtain ⟨range, layer⟩ := node
  cases layer with
  | element | blockCall => cases token
  | _ => trivial

/-- Whatever a node was made from, it declares what is listed in the text. -/
theorem Origin.declares {node : Node Span} (origin : Origin (.ofText chars) node) :
    node.Declares id chars := by
  cases origin with
  | single reach reads =>
    cases reads with
    | block plain opens block hash tag tail =>
      exact declares_of_block (reach.trans ((Input.le_of_eat? opens).trans
        ((Input.le_skipTilde _).trans (Input.le_of_eat? hash)))) tag tail
    | element plain bare visible tagged read => exact declares_of_element reach tagged read
    | quotedValue plain quoted inside =>
      simp only [Node.Declares, Node.between, Node.layer, Template.quotedValue]
      split_ifs <;> trivial
    | string plain quoted read => exact .of_token (isToken_of_readString read)
    | word plain bare read => exact .of_token (isToken_of_readWord read)
    | mustacheComment opens comment => exact .of_token (isToken_of_readMustacheComment comment)
    | comment plain bare opens comment => exact .of_token (isToken_of_readComment comment)
    | subExpression | mustacheValue | bareValue | valueless | attr | mustacheStatement | text =>
      trivial
  | comment reach opens comment => exact .of_token (isToken_of_readMustacheComment comment)
  | link link =>
    obtain ⟨reach, otherwise, chained, tag, tail⟩ := link
    exact declares_of_block (reach.trans ((Input.le_of_eatElse? otherwise).trans
      (Input.le_skipBlank _))) tag tail
  | whole | pair | hash | mustache | modifier | piece | unvalued | block | chain => trivial

/-! ## Blocks -/

/-- The content of a block, as opposed to the statement that holds it. -/
def Node.IsBlock (node : Node ρ) : Prop := ∃ body params, node.layer = .block body params

/-- There is no block among some nodes. -/
def Blockless (nodes : List (Node ρ)) : Prop := ∀ node ∈ nodes, ¬ node.IsBlock

namespace Blockless
variable {node : Node ρ} {nodes left right : List (Node ρ)}

theorem nil : Blockless ([] : List (Node ρ)) := nofun

theorem cons (here : ¬ node.IsBlock) (rest : Blockless nodes) : Blockless (node :: nodes) :=
  List.forall_mem_cons.mpr ⟨here, rest⟩

theorem append (first : Blockless left) (second : Blockless right) : Blockless (left ++ right) :=
  List.forall_mem_append.mpr ⟨first, second⟩

theorem perm (all : Blockless left) (same : left.Perm right) : Blockless right :=
  fun node member => all node (same.mem_iff.mpr member)

end Blockless

private theorem blockless_textPiece {piece : List Char} : Blockless (textPiece input stop piece) := by
  unfold textPiece
  split
  · exact .nil
  · exact .cons (by rintro ⟨_, _, ⟨⟩⟩) .nil

private theorem not_isBlock_of_token {node : Node ρ} (token : node.layer.IsToken) :
    ¬ node.IsBlock := by
  rintro ⟨_, _, layer⟩
  rw [layer] at token
  cases token

/-- A single node that is read is no block. -/
theorem Reads.not_isBlock {production : Production} {node : Node Span}
    (reads : Reads depth production input (.node node) closed) : ¬ node.IsBlock := by
  cases reads with
  | quotedValue plain quoted inside =>
    rintro ⟨body, params, layer⟩
    simp only [Node.between, Node.layer, Template.quotedValue] at layer
    split_ifs at layer
  | string plain quoted read => exact not_isBlock_of_token (isToken_of_readString read)
  | word plain bare read => exact not_isBlock_of_token (isToken_of_readWord read)
  | mustacheComment opens comment =>
    exact not_isBlock_of_token (isToken_of_readMustacheComment comment)
  | comment plain bare opens comment => exact not_isBlock_of_token (isToken_of_readComment comment)
  | subExpression | mustacheValue | bareValue | valueless | attr | block | mustacheStatement
  | element | text => rintro ⟨_, _, ⟨⟩⟩

/-- Of the constructs that hand on several nodes, only the rest of a block has blocks among them. -/
def Yield.Blockless : Yield → Prop
  | .node _ | .blockTail .. => True
  | other => Template.Blockless other.nodes

theorem Reads.blockless {production : Production} {yield : Yield}
    (reads : Reads depth production input yield closed) : yield.Blockless := by
  induction reads with
  | call called _ _ givenIH =>
    obtain ⟨params, pairs⟩ := List.forall_mem_append.mp givenIH
    exact .cons called.not_isBlock (.append params (.cons (by rintro ⟨_, _, ⟨⟩⟩) .nil))
  | noArguments | selfClosed | tagEnd | noStatements => exact .nil
  | named _ _ _ _ _ restIH =>
    obtain ⟨params, pairs⟩ := List.forall_mem_append.mp restIH
    exact .append params (.cons (by rintro ⟨_, _, ⟨⟩⟩) pairs)
  | positional _ _ given _ _ restIH => exact .cons given.not_isBlock restIH
  | trusting _ _ _ ih | mustache _ _ _ ih | modifier _ _ ih | blockTag _ _ _ ih
  | tagParams _ _ _ _ _ ih => exact ih
  | lastPiece => exact blockless_textPiece
  | pieces _ _ _ _ _ _ restIH =>
    exact .append blockless_textPiece (.cons (by rintro ⟨_, _, ⟨⟩⟩) restIH)
  | tagComment _ opens comment _ ih =>
    have token := isToken_of_readMustacheComment comment
    exact .perm (.cons (not_isBlock_of_token token) ih) (TagContent.nodes_withComment _ _)
  | tagModifier _ _ _ _ _ _ restIH =>
    exact .perm (.cons (by rintro ⟨_, _, ⟨⟩⟩) restIH) (TagContent.nodes_withModifier _ _)
  | tagAttribute _ _ _ _ taken _ _ restIH => exact .cons taken.not_isBlock restIH
  | statements _ head _ _ restIH => exact .cons head.not_isBlock restIH
  | bareElement _ _ ih => exact .append ih .nil
  | filledElement _ _ _ _ _ startIH insideIH => exact .append startIH insideIH
  | _ => trivial

private theorem of_mem_blockCall {call : Call (Node Span)} {program node : Node Span}
    {inverse : Option (Node Span)} {range : Option Span} (called : Blockless call.nodes)
    (held : node ∈ Node.children (.mk range (.blockCall call program inverse)))
    (block : node.IsBlock) : node = program ∨ node ∈ inverse := by
  rw [Node.children, Node.layer, Layer.children_blockCall, List.mem_append, List.mem_cons,
    Option.mem_toList] at held
  exact held.resolve_left fun member => called node member block

/-- Only a block statement holds blocks. -/
theorem Origin.blockCall_of_isBlock {parent node : Node Span} (origin : Origin root parent)
    (held : node ∈ parent.children) (block : node.IsBlock) :
    ∃ call program inverse, parent.layer = .blockCall call program inverse ∧
      (node = program ∨ node ∈ inverse) := by
  have elsewhere {nodes : List (Node Span)} (same : parent.children = nodes)
      (all : Blockless nodes) : ∃ call program inverse,
        parent.layer = .blockCall call program inverse ∧ (node = program ∨ node ∈ inverse) :=
    absurd block (all node (same ▸ held))
  cases origin with
  | single reach reads =>
    cases reads with
    | block plain opens block_ hash tag tail =>
      exact ⟨_, _, _, rfl, of_mem_blockCall tag.blockless held block⟩
    | subExpression opens invoked closes =>
      exact elsewhere (Layer.children_subExpression _) invoked.blockless
    | mustacheValue opens invoked | mustacheStatement plain opens single invoked =>
      exact elsewhere (Layer.children_mustache _ _) invoked.blockless
    | attr named equals assigned =>
      exact elsewhere (Layer.children_attr _ _) (.cons assigned.not_isBlock .nil)
    | valueless named ends =>
      exact elsewhere (Layer.children_attr _ _) (.cons (by rintro ⟨_, _, ⟨⟩⟩) .nil)
    | element plain bare visible tagged read =>
      exact elsewhere (Layer.children_elementLayer _ _ _) read.blockless
    | @quotedValue _ _ _ _ pieces plain quoted inside =>
      by_cases invoked : pieces.any isMustache
      · refine elsewhere ?_ inside.blockless
        rw [Template.quotedValue, if_pos invoked]
        exact Layer.children_concat _
      · rw [Template.quotedValue, if_neg invoked] at held
        cases held
    | string plain quoted read => exact elsewhere (isToken_of_readString read).children .nil
    | word plain bare read => exact elsewhere (isToken_of_readWord read).children .nil
    | mustacheComment opens comment =>
      exact elsewhere (isToken_of_readMustacheComment comment).children .nil
    | comment plain bare opens comment =>
      exact elsewhere (isToken_of_readComment comment).children .nil
    | bareValue | text => cases held
  | whole body => exact elsewhere (Layer.children_template _ _) body.blockless
  | block reach body => exact elsewhere (Layer.children_block _ _) body.blockless
  | pair reach named assigned =>
    exact elsewhere (Layer.children_hashPair _ _) (.cons assigned.not_isBlock .nil)
  | hash reach given =>
    exact elsewhere (Layer.children_hash _) (List.forall_mem_append.mp given.blockless).2
  | mustache reach opens invoked =>
    exact elsewhere (Layer.children_mustache _ _) invoked.blockless
  | modifier reach opens invoked => exact elsewhere (Layer.children_modifier _) invoked.blockless
  | comment reach opens comment =>
    exact elsewhere (isToken_of_readMustacheComment comment).children .nil
  | piece | unvalued => cases held
  | link link =>
    obtain ⟨reach, otherwise, chained, tag, tail⟩ := link
    exact ⟨_, _, _, rfl, of_mem_blockCall tag.blockless held block⟩
  | chain link =>
    obtain ⟨reach, otherwise, chained, tag, tail⟩ := link
    exact elsewhere (Layer.children_block _ _) (.cons (by rintro ⟨_, _, ⟨⟩⟩) .nil)

/-! ## Positions -/

theorem FillsTag.mapRange (move : ρ → σ) {selfClosing : Bool} {nodes : List (Node ρ)}
    {names : Option (List String)} {start stop : Nat}
    (fills : FillsTag place chars selfClosing start nodes names stop) :
    FillsTag (move ∘ place) chars selfClosing start (nodes.map (Node.mapRange move)) names stop := by
  induction fills with
  | ended blank ends => exact .ended blank ends
  | node blank spaced unlisted placed rest ih =>
    exact .node blank spaced unlisted (by rw [Node.range_mapRange, placed]; rfl) ih
  | list blank lists stands rest ih => exact .list blank lists stands ih

theorem Node.Declares.mapRange (move : ρ → σ) {node : Node ρ} (declares : node.Declares place chars) :
    (node.mapRange move).Declares (move ∘ place) chars := by
  obtain ⟨range, layer⟩ := node
  rw [mapRange_mk]
  cases layer with
  | element tag selfClosing attributes modifiers comments params children =>
    obtain ⟨before, after, nodes, names, tagEnd, contentEnd, stop, source, placed, same, fills, given,
      tiles⟩ := declares
    refine ⟨before, after, _, names, tagEnd, contentEnd, stop, source,
      congrArg (Option.map move) placed, ?_, fills.mapRange move, given, tiles.mapRange move⟩
    rw [← List.map_append, ← List.map_append]
    exact same.map _
  | blockCall call program inverse =>
    obtain ⟨⟨last, member, before, part, after, begins, stop, statements, names, source, placed, closes,
      rfl⟩, undeclared⟩ := declares
    refine ⟨⟨last.mapRange move, ?_, before, part, after, begins, stop, _, names, source,
      by rw [range_mapRange, placed]; rfl, closes, mapRange_mk ..⟩, ?_⟩
    · rw [← Call.map, Call.nodes_map]
      exact List.mem_map_of_mem member
    · intro block held
      obtain ⟨origin, there, rfl⟩ := Option.map_eq_some_iff.mp held
      rw [layer_mapRange, Layer.declared_map]
      exact undeclared origin there
  | _ => trivial

/-- What is listed in a start tag is listed in the text. -/
theorem FillsTag.infix_of_some {selfClosing : Bool} {nodes : List (Node ρ)}
    {start stop : Nat} (fills : FillsTag place chars selfClosing start nodes (some names) stop) :
    ∃ part, ListsParams part names ∧ part <:+: chars := by
  generalize same : some names = given at fills
  induction fills with
  | ended blank ends => cases same
  | node blank spaced unlisted placed rest ih => exact ih same
  | @list _ later these blanks part _ _ _ blank lists stands rest ih =>
    cases later with
    | some last => exact ih same
    | none =>
      cases same
      obtain ⟨before, after, source, -⟩ := stands
      exact ⟨part, lists, before ++ blanks, after, by rw [source]; simp⟩

/-- Whatever a node declares is listed in the text. -/
theorem parseSpans_lists {tree node : Node Span} {address : List Slot}
    (parsed : parseSpans chars = .ok tree) (found : tree.at? address = some node)
    (filled : node.layer.declared ≠ []) :
    ∃ part, ListsParams part node.layer.declared ∧ part <:+: chars := by
  obtain ⟨range, layer⟩ := node
  cases layer with
  | element tag selfClosing attributes modifiers comments params children =>
    obtain ⟨_, _, nodes, names, tagEnd, contentEnd, stop, -, -, -, fills, rfl, -⟩ :=
      (parseSpans_origin parsed found).declares
    cases names with
    | none => exact absurd rfl filled
    | some names => exact fills.infix_of_some
  | block body params =>
    rcases List.eq_nil_or_concat' address with rfl | ⟨front, slot, rfl⟩
    · obtain ⟨statements, stop, -, -, rfl⟩ := parseSpans_eq_ok.mp parsed
      cases found
    rw [Node.at?_append, Option.bind_eq_some_iff] at found
    obtain ⟨parent, above, found⟩ := found
    rw [Node.at?_cons, Option.bind_eq_some_iff] at found
    obtain ⟨child, held, same⟩ := found
    cases same
    have origin := parseSpans_origin parsed above
    obtain ⟨call, program, inverse, layer, place⟩ :=
      origin.blockCall_of_isBlock (Node.mem_children_of_child? held) ⟨body, params, rfl⟩
    have declares := origin.declares
    simp only [Node.Declares, layer] at declares
    obtain ⟨⟨_, -, before, part, after, _, _, statements, names, source, -, closes, spelled⟩,
      undeclared⟩ := declares
    rcases place with rfl | place
    · cases spelled
      obtain ⟨left, list, right, closer, -, lists, -, rfl⟩ := closes
      rcases lists with ⟨-, rfl⟩ | lists
      · exact absurd rfl filled
      · exact ⟨list, lists, before ++ left, right ++ closer ++ after, by rw [source]; simp⟩
    · exact absurd (undeclared _ place) filled
  | _ => exact absurd rfl filled

/-! ## Lists without an end -/

private theorem eq_of_bar? (bar : input.bar? = some opened) :
    ∃ c rest, input = ⟨input.offset, 'a' :: 's' :: c :: rest⟩ ∧ isBlank c = true := by
  obtain ⟨word, spelled, rest⟩ := Option.bind_eq_some_iff.mp bar
  obtain ⟨⟨blanks, spaced⟩, taken, -⟩ := Option.bind_eq_some_iff.mp rest
  obtain ⟨run, filled⟩ := Input.takeSome?_eq_some.mp taken
  obtain ⟨source, -, blank, -⟩ := Input.takeWhile_eq.mp run
  obtain ⟨c, others, rfl⟩ := List.exists_cons_of_ne_nil filled
  refine ⟨c, others ++ spaced.rest, ?_, blank c (by simp)⟩
  have split := (Input.eat?_eq_some.mp spelled).1
  rw [source] at split
  exact congrArg (Input.mk input.offset) split

private theorem blockParams?_of_unclosed (bar : input.bar? = some opened)
    (unclosed : '|' ∉ opened.rest) : input.blockParams? = none := by
  rw [Input.blockParams?_eq, bar, Option.bind_some, Input.eat?_bar_eq_none.mpr unclosed]
  rfl

/-- A list without an end in a block's tag is a fault. -/
theorem readBlockTag_of_unclosed {invocation : Call (Node Span)}
    (called : call depth input = .ok (invocation, behind))
    (bar : behind.skipBlank.bar? = some opened) (unclosed : '|' ∉ opened.rest) :
    readBlockTag depth input = behind.skipBlank.fail (.expected closeBraces) := by
  have undeclared := blockParams?_of_unclosed bar unclosed
  obtain ⟨c, rest, here, -⟩ := eq_of_bar? bar
  have solid : behind.skipBlank.skipTilde = behind.skipBlank := by
    rw [here]
    rfl
  have open_ : behind.skipBlank.eat? closeBraces = none := by
    rw [here]
    rfl
  simp only [readBlockTag, called, bind, Except.bind, undeclared, Option.getD_none, solid,
    Input.expect, open_]
  rfl

/-- In a start tag it is read as an attribute. -/
theorem tagContent_of_unclosed {tag : String} {start : Input}
    (bar : input.skipBlank.bar? = some opened) (unclosed : '|' ∉ opened.rest) :
    ∃ word, input.skipBlank.Passes ['a', 's'] word ∧ tagContent start tag (depth + 1) input = do
      let (content, closed) ← tagContent start tag depth word
      return (content.withAttribute
        (.between input.skipBlank word (.attr "as" (.mk none (.text "")))), closed) := by
  have undeclared := blockParams?_of_unclosed bar unclosed
  obtain ⟨c, rest, here, blank⟩ := eq_of_bar? bar
  generalize input.skipBlank.offset = offset at here
  have ends : Input.isAttributeNameChar c = false := by simp [Input.isAttributeNameChar, blank]
  have differ : c ≠ '=' := by
    rintro rfl
    cases blank
  have letters : ∀ c ∈ ['a', 's'], Input.isAttributeNameChar c = true := by
    intro c member
    simp only [List.mem_cons, List.not_mem_nil, or_false] at member
    rcases member with rfl | rfl <;> rfl
  have word : Input.takeSome? Input.isAttributeNameChar ⟨offset, 'a' :: 's' :: c :: rest⟩ =
      some (['a', 's'], ⟨offset + 2, c :: rest⟩) :=
    Input.takeSome?_append (by simp) letters (by rintro _ ⟨⟩; exact ends)
  have bare : Input.eat? ['='] ⟨offset + 2, c :: rest⟩ = none := by
    simp [Input.eat?, differ.symm]
  refine ⟨⟨offset + 2, c :: rest⟩, by rw [here]; exact ⟨rfl, rfl⟩, ?_⟩
  rw [here] at undeclared
  simp only [tagContent, here, undeclared, readAttribute, word, bare]
  rfl

/-- The block parameters of a tree are those listed in its text. In each tag the list goes from its
bar to the next one, wherever that is, so a name holds what begins and ends tags exactly if there is
some before that bar. With no bar to come, a list is a fault in a block's tag but an attribute in a
start tag. -/
structure ParamsListed (text : String) (tree : Node Range) : Prop where
  tags {address : List Slot} {node : Node Range} (found : tree.at? address = some node) :
    node.Declares (rangeOf (lineStarts text.toList)) text.toList
  names {address : List Slot} {node : Node Range} (found : tree.at? address = some node)
    (filled : node.layer.declared ≠ []) :
    ∃ part, ListsParams part node.layer.declared ∧ part <:+: text.toList ∧
      ∀ c ∈ markup, (∃ name ∈ node.layer.declared, c ∈ name.toList) ↔ c ∈ part
  refused {depth : Nat} {input behind opened : Input} {invocation : Call (Node Span)}
    (called : call depth input = .ok (invocation, behind))
    (bar : behind.skipBlank.bar? = some opened) (unclosed : '|' ∉ opened.rest) :
    readBlockTag depth input = behind.skipBlank.fail (.expected closeBraces)
  admitted {depth : Nat} {input opened start : Input} {tag : String}
    (bar : input.skipBlank.bar? = some opened) (unclosed : '|' ∉ opened.rest) :
    ∃ word, input.skipBlank.Passes ['a', 's'] word ∧ tagContent start tag (depth + 1) input = do
      let (content, closed) ← tagContent start tag depth word
      return (content.withAttribute
        (.between input.skipBlank word (.attr "as" (.mk none (.text "")))), closed)

/-- No block parameter comes from anywhere but a list in the text. -/
theorem parse_paramsListed {text : String} {tree : Node Range} (parsed : parse text = .ok tree) :
    ParamsListed text tree := by
  refine ⟨?_, ?_, readBlockTag_of_unclosed, tagContent_of_unclosed⟩
  · intro address node found
    obtain ⟨part, origin, rfl⟩ := parse_origin parsed found
    exact origin.declares.mapRange _
  · intro address node found filled
    obtain ⟨spans, read, rfl⟩ := parse_eq_ok parsed
    rw [Node.at?_mapRange, Option.map_eq_some_iff] at found
    obtain ⟨origin, found, rfl⟩ := found
    rw [Node.layer_mapRange, Layer.declared_map] at filled ⊢
    obtain ⟨part, lists, inText⟩ := parseSpans_lists read found filled
    exact ⟨part, lists, inText, fun c mark => lists.exists_mem_iff mark⟩

theorem paramsListed_over_tags : ∃ tree,
    parse "<a as |b><c as |d|>{{#e as |f|}}{{/e}}</a>" = .ok tree ∧
      ParamsListed "<a as |b><c as |d|>{{#e as |f|}}{{/e}}</a>" tree := by
  have read : (parse "<a as |b><c as |d|>{{#e as |f|}}{{/e}}</a>").isOk =
      true := by
    decide +kernel
  cases parsed : parse "<a as |b><c as |d|>{{#e as |f|}}{{/e}}</a>" with
  | error fault =>
    rw [parsed] at read
    cases read
  | ok tree => exact ⟨tree, rfl, parse_paramsListed parsed⟩

/-- A list that is not closed in its start tag takes the beginning of the next tag for names. -/
theorem declared_over_start_tag :
    ((parse "<A as |x><B as |y|></A>").toOption.bind (·.at? [.body 0])).map (·.layer.declared) =
      some ["x><B", "as"] := by
  decide +kernel

end EmberAssist.Template
