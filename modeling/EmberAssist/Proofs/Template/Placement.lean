import Mathlib.Data.Set.Function
import EmberAssist.Proofs.Template.Origin

/-! Which nodes of a template came from no part of the text, and how the parts that the others came
from lie to each other. -/
namespace EmberAssist.Template

/-- An else tag with a call in it comes next. -/
def Input.seesElseCall (input : Input) : Bool :=
  match input.eatElse? with
  | some word => !word.skipBlank.eatClose?.isSome
  | none => false

/-- What can stand in a tree without a place of its own: no named arguments, the value of an attribute
that is only a name, and what holds the call of an else tag. -/
inductive Placeless {ρ : Type} (place : Span → ρ) (chars : List Char) (parent : Node ρ) :
    Slot → Node ρ → Prop where
  | hash {node : Node ρ} (empty : node.layer = .hash []) : Placeless place chars parent .hash node
  | value {node : Node ρ} (name : String) (before after : List Char)
      (held : parent.layer = .attr name node) (empty : node.layer = .text "")
      (source : chars = before ++ name.toList ++ after)
      (bare : parent.range = some (place ⟨before.length, before.length + name.toList.length⟩)) :
      Placeless place chars parent .value node
  | inverse {node next : Node ρ} (before after : List Char) (stop : Nat)
      (held : node.layer = .block [next] []) (chained : next.layer.typeName = "BlockStatement")
      (source : chars = before ++ after) (begins : next.range = some (place ⟨before.length, stop⟩))
      (seen : Input.seesElseCall ⟨before.length, after⟩ = true) :
      Placeless place chars parent .inverse node

variable {depth : Nat} {production : Production} {yield : Yield} {chars : List Char}
variable {root input opened inner behind next stop closed : Input}
variable {parent child : Node Span} {slot : Slot}

/-! ## Slots of one layer -/

theorem mem_numbered {α : Type} {slots : Nat → Slot} {items : List α} {item : α}
    (held : (slot, item) ∈ numbered slots items) : (∃ index, slot = slots index) ∧ item ∈ items := by
  simp only [numbered, List.mem_map, Prod.mk.injEq, Prod.exists] at held
  obtain ⟨_, index, member, rfl, rfl⟩ := held
  exact ⟨⟨index, rfl⟩, List.fst_mem_of_mem_zipIdx member⟩

private theorem placeless_iff_of_placed (placed : ∃ place, child.range = some place)
    (hash : slot ≠ .hash) (value : slot ≠ .value) (inverse : slot ≠ .inverse) :
    child.range = none ↔ Placeless id chars parent slot child := by
  obtain ⟨place, here⟩ := placed
  rw [here]
  constructor
  · intro absent
    cases absent
  · rintro (_ | _ | _)
    · exact absurd rfl hash
    · exact absurd rfl value
    · exact absurd rfl inverse

private theorem placeless_iff_of_numbered {slots : Nat → Slot} {items : List (Node Span)}
    (held : (slot, child) ∈ numbered slots items) (placed : AllPlaced items)
    (hash : ∀ index, slots index ≠ .hash) (value : ∀ index, slots index ≠ .value)
    (inverse : ∀ index, slots index ≠ .inverse) :
    child.range = none ↔ Placeless id chars parent slot child := by
  obtain ⟨⟨index, rfl⟩, member⟩ := mem_numbered held
  exact placeless_iff_of_placed (placed child member) (hash index) (value index) (inverse index)

theorem range_hashOf {pairs : List (Node Span)} (placed : AllPlaced pairs) :
    (hashOf pairs).range = none ↔ pairs = [] := by
  constructor
  · intro absent
    by_contra filled
    obtain ⟨first, last, -, -, hash⟩ := hashOf_eq filled placed
    rw [hash] at absent
    cases absent
  · rintro rfl
    rfl

private theorem placeless_iff_of_call {call : Call (Node Span)} (placed : call.Placed)
    (held : (slot, child) ∈ Layer.callSlots call) :
    child.range = none ↔ Placeless id chars parent slot child := by
  obtain ⟨callee, params, pairs, hash, pairsPlaced⟩ := placed
  simp only [Layer.callSlots, List.mem_cons, List.mem_append, Prod.mk.injEq, List.not_mem_nil,
    or_false] at held
  rcases held with ⟨rfl, rfl⟩ | held | ⟨rfl, rfl⟩
  · exact placeless_iff_of_placed callee (by simp) (by simp) (by simp)
  · exact placeless_iff_of_numbered held params (by simp) (by simp) (by simp)
  · rw [hash, range_hashOf pairsPlaced]
    constructor
    · rintro rfl
      exact .hash rfl
    · rintro ⟨empty⟩
      simpa [hashOf, Node.layer] using empty

/-! ## Places in the text -/

theorem Input.source_of_reach (reach : .ofText chars ≤ input) :
    ∃ before, chars = before ++ input.rest ∧ input.offset = before.length := by
  obtain ⟨before, source, offset⟩ := reach
  exact ⟨before, source, by simpa [ofText] using offset⟩

theorem Input.offset_of_atEnd (reach : .ofText chars ≤ input) (ends : input.atEnd = true) :
    input.offset = chars.length := by
  obtain ⟨before, source, offset⟩ := source_of_reach reach
  have left : input.rest = [] := by simpa [atEnd] using ends
  rw [offset, source, left, List.append_nil]

theorem Input.eq_of_source {before after : List Char} (reach : .ofText chars ≤ input)
    (source : chars = before ++ after) (offset : before.length = input.offset) :
    input = ⟨before.length, after⟩ := by
  obtain ⟨read, here, reached⟩ := source_of_reach reach
  have same := (List.append_inj (source.symm.trans here) (offset.trans reached)).2
  cases input
  simp only at offset same
  simp [offset, same]

theorem Input.seesElseCall_iff : input.seesElseCall = true ↔
    ∃ word, input.eatElse? = some word ∧ word.skipBlank.eatClose?.isSome = false := by
  unfold seesElseCall
  cases input.eatElse? <;> simp

/-! ## The rest of a block -/

private theorem placeless_of_link {next : Node Span} (link : Link (.ofText chars) next) :
    Placeless id chars parent .inverse (.mk none (.block [next] [])) := by
  obtain ⟨reach, otherwise, chained, tag, tail⟩ := link
  obtain ⟨before, source, offset⟩ := Input.source_of_reach reach
  refine .inverse before _ _ rfl rfl source (by rw [← offset]; rfl) ?_
  rw [← Input.eq_of_source reach source offset.symm]
  exact Input.seesElseCall_iff.mpr ⟨_, otherwise, chained⟩

/-- The statements of a body are read where no else tag stands. -/
private theorem not_placeless_of_body {others : List (Node Span)} {params : List String}
    {range : Option Span} (reach : .ofText chars ≤ input)
    (body : Reads depth .body input (.list others) stop) :
    ¬ Placeless id chars parent .inverse (.mk range (.block others params)) := by
  rintro (_ | _ | ⟨before, after, stop, held, chained, source, begins, seen⟩)
  cases held
  cases body with
  | statements goesOn head rest =>
    have place : some _ = some _ := head.range.symm.trans begins
    have offset : before.length = input.offset := (congrArg Span.start (Option.some.inj place)).symm
    rw [← Input.eq_of_source reach source offset] at seen
    obtain ⟨word, otherwise, -⟩ := Input.seesElseCall_iff.mp seen
    simp [Input.endsBody, otherwise] at goesOn

private theorem placeless_iff_of_inverse {name : Option String} {params : List String}
    {program inverse : Node Span} (reach : .ofText chars ≤ input)
    (reads : Reads depth (.blockTail name params) input (.blockTail program (some inverse)) closed) :
    inverse.range = none ↔ Placeless id chars parent .inverse inverse := by
  cases reads with
  | blockElse body otherwise last ends otherBody noElse closes same =>
    refine ⟨nofun, fun placeless => ?_⟩
    have inner := reach.trans (body.le.trans ((Input.le_of_eatElse? otherwise).trans
      ((Input.le_skipBlank _).trans ((Input.le_skipTilde _).trans (Input.le_of_eat? ends)))))
    exact absurd placeless (not_placeless_of_body inner otherBody)
  | blockChain body otherwise chained tag tail =>
    have link := Link.mk (reach.trans body.le) otherwise chained tag tail
    exact ⟨fun _ => placeless_of_link link, fun _ => rfl⟩

private theorem placeless_iff_of_block {call : Call (Node Span)} {name : Option String}
    {params : List String} {program : Node Span} {inverse : Option (Node Span)}
    (reach : .ofText chars ≤ input) (tag : Reads depth .blockTag input (.blockTag call params) behind)
    (tail : Reads depth (.blockTail name params) behind (.blockTail program inverse) closed)
    (held : (slot, child) ∈ (Layer.blockCall call program inverse).slots) :
    child.range = none ↔ Placeless id chars parent slot child := by
  simp only [Layer.slots, List.mem_append, List.mem_cons, Prod.mk.injEq, Option.mem_toList,
    Option.map_eq_some_iff] at held
  rcases held with held | ⟨rfl, rfl⟩ | ⟨block, rfl, rfl, rfl⟩
  · exact placeless_iff_of_call tag.placed held
  · exact placeless_iff_of_placed (tail.placed child (by simp)) (by simp) (by simp) (by simp)
  · exact placeless_iff_of_inverse (reach.trans tag.le) tail

/-! ## All nodes -/

/-- Only an attribute without a sign of equality ends where its name does. -/
private theorem placeless_iff_of_attr (reach : .ofText chars ≤ input)
    (reads : Reads depth .attr input (.node parent) closed)
    (held : (slot, child) ∈ parent.layer.slots) :
    child.range = none ↔ Placeless id chars parent slot child := by
  obtain ⟨before, source, offset⟩ := Input.source_of_reach reach
  cases reads with
  | valueless named ends =>
    cases List.mem_singleton.mp held
    obtain ⟨taken, -⟩ := Input.takeSome?_eq_some.mp named
    obtain ⟨rfl, rfl⟩ := Prod.mk.inj taken
    refine ⟨fun _ => ?_, fun _ => rfl⟩
    refine .value _ before (input.rest.dropWhile Input.isAttributeNameChar) rfl rfl ?_ ?_
    · rw [source, List.append_assoc, String.toList_ofList, List.takeWhile_append_dropWhile]
    · rw [String.toList_ofList, ← offset]
      rfl
  | attr named equals assigned =>
    cases List.mem_singleton.mp held
    refine ⟨fun absent => ?_, ?_⟩
    · rw [assigned.range] at absent
      cases absent
    · rintro (_ | ⟨name, read, after, same, empty, here, bare⟩ | _)
      cases same
      obtain ⟨taken, -⟩ := Input.takeSome?_eq_some.mp named
      obtain ⟨rfl, rfl⟩ := Prod.mk.inj taken
      have ends := (Input.eat?_eq_some.mp equals).2
      have order := Input.offset_le assigned.le
      obtain ⟨start, stop⟩ := Span.mk.inj (Option.some.inj bare)
      simp only [String.toList_ofList, List.length_singleton] at ends stop
      omega

private theorem placeless_iff_of_token (token : parent.layer.IsToken)
    (held : (slot, child) ∈ parent.layer.slots) :
    child.range = none ↔ Placeless id chars parent slot child := by
  rw [token.slots] at held
  cases held

private theorem placeless_iff_of_single (reach : .ofText chars ≤ input)
    (reads : Reads depth production input (.node parent) closed)
    (held : (slot, child) ∈ parent.layer.slots) :
    child.range = none ↔ Placeless id chars parent slot child := by
  have whole := reads
  cases reads with
  | subExpression opens invoked closes => exact placeless_iff_of_call invoked.placed held
  | string plain quoted read => exact placeless_iff_of_token (isToken_of_readString read) held
  | word plain bare read => exact placeless_iff_of_token (isToken_of_readWord read) held
  | mustacheValue opens invoked => exact placeless_iff_of_call invoked.placed held
  | @quotedValue _ _ _ _ pieces plain quoted inside =>
    by_cases invoked : pieces.any isMustache
    · simp only [Node.between, Node.layer, quotedValue, invoked, ↓reduceIte, Layer.slots] at held
      exact placeless_iff_of_numbered held inside.placed (by simp) (by simp) (by simp)
    · simp only [Node.between, Node.layer, quotedValue, invoked] at held
      cases held
  | bareValue plain bare taken => cases held
  | valueless | attr => exact placeless_iff_of_attr reach whole held
  | mustacheComment opens comment =>
    exact placeless_iff_of_token (isToken_of_readMustacheComment comment) held
  | block plain opens block hash tag tail =>
    exact placeless_iff_of_block (reach.trans ((Input.le_of_eat? opens).trans
      ((Input.le_skipTilde _).trans (Input.le_of_eat? hash)))) tag tail held
  | mustacheStatement plain opens single invoked => exact placeless_iff_of_call invoked.placed held
  | comment plain bare opens comment =>
    exact placeless_iff_of_token (isToken_of_readComment comment) held
  | element plain bare visible tagged read =>
    have placed : AllPlaced (_ ++ _ ++ _ ++ _) := read.placed
    simp only [Node.between, Node.layer, elementLayer, Layer.slots, List.mem_append] at held
    rcases held with ((held | held) | held) | held
    all_goals
      exact placeless_iff_of_numbered held (fun node member => placed node (by simp [member]))
        (by simp) (by simp) (by simp)
  | text plain bare visible untagged => cases held

/-- The nodes without a place are those that came from no part of the text. -/
theorem Origin.placeless_iff (origin : Origin (.ofText chars) parent)
    (held : (slot, child) ∈ parent.layer.slots) :
    child.range = none ↔ Placeless id chars parent slot child := by
  cases origin with
  | whole body =>
    exact placeless_iff_of_numbered held body.placed (by simp) (by simp) (by simp)
  | single reach reads => exact placeless_iff_of_single reach reads held
  | pair reach named assigned =>
    cases List.mem_singleton.mp held
    rw [assigned.range]
    exact ⟨nofun, nofun⟩
  | hash reach given =>
    exact placeless_iff_of_numbered held given.placed.2 (by simp) (by simp) (by simp)
  | mustache reach opens invoked => exact placeless_iff_of_call invoked.placed held
  | modifier reach opens invoked => exact placeless_iff_of_call invoked.placed held
  | comment reach opens comment =>
    exact placeless_iff_of_token (isToken_of_readMustacheComment comment) held
  | piece reach upTo => cases held
  | unvalued => cases held
  | block reach body =>
    exact placeless_iff_of_numbered held body.placed (by simp) (by simp) (by simp)
  | link link =>
    obtain ⟨reach, otherwise, chained, tag, tail⟩ := link
    exact placeless_iff_of_block (reach.trans ((Input.le_of_eatElse? otherwise).trans
      (Input.le_skipBlank _))) tag tail held
  | chain link =>
    obtain ⟨reach, otherwise, chained, tag, tail⟩ := link
    exact placeless_iff_of_numbered held (AllPlaced.cons rfl .nil) (by simp) (by simp) (by simp)

/-- The nodes without a place hold nothing, or the call of an else tag. -/
theorem Origin.unplaced {node : Node Span} (origin : Origin root node) (absent : node.range = none) :
    node.layer = .hash [] ∨ node.layer = .text "" ∨
      ∃ next, Link root next ∧ node.layer = .block [next] [] := by
  cases origin with
  | single reach reads =>
    rw [reads.range] at absent
    cases absent
  | hash reach given =>
    obtain rfl := (range_hashOf given.placed.2).mp absent
    exact .inl rfl
  | comment reach opens comment =>
    obtain ⟨value, -, rfl⟩ := readMustacheComment_eq_ok.mp comment
    cases absent
  | unvalued => exact .inr (.inl rfl)
  | link link =>
    cases link
    cases absent
  | chain link => exact .inr (.inr ⟨_, link, rfl⟩)
  | whole | pair | mustache | modifier | piece | block => cases absent

/-! ## Positions -/

/-- Placing the nodes in another way does not matter for what has no place. -/
theorem Placeless.mapRange {ρ σ : Type} {place : Span → ρ} {parent child : Node ρ} (move : ρ → σ)
    (placeless : Placeless place chars parent slot child) :
    Placeless (move ∘ place) chars (parent.mapRange move) slot (child.mapRange move) := by
  cases placeless with
  | hash empty => exact .hash (by rw [Node.layer_mapRange, empty]; rfl)
  | value name before after held empty source bare =>
    refine .value name before after ?_ ?_ source ?_
    · rw [Node.layer_mapRange, held]
      rfl
    · rw [Node.layer_mapRange, empty]
      rfl
    · rw [Node.range_mapRange, bare]
      rfl
  | @inverse _ next before after stop held chained source begins seen =>
    refine .inverse before after stop (?_ : _ = Layer.block [next.mapRange move] []) ?_ source ?_
      seen
    · rw [Node.layer_mapRange, held]
      rfl
    · rw [Node.layer_mapRange, Layer.typeName_map, chained]
    · rw [Node.range_mapRange, begins]
      rfl

/-- What has no place among offsets has none among positions that tell the offsets apart. -/
theorem Placeless.mapRange_iff {ρ : Type} {place : Span → ρ}
    (distinct : Function.Injective place) :
    Placeless place chars (parent.mapRange place) slot (child.mapRange place) ↔
      Placeless id chars parent slot child := by
  constructor
  · intro placeless
    have back : Function.invFun place ∘ place = id := Function.invFun_comp distinct
    have moved := placeless.mapRange (Function.invFun place)
    simpa only [Node.mapRange_mapRange, back, Node.mapRange_id] using moved
  · exact Placeless.mapRange place

/-! ## The tree of a text -/

/-- A tree that the parser gives has its nodes from the text, and its places are those of spans. -/
theorem parse_eq_ok {text : String} {tree : Node Range} (parsed : parse text = .ok tree) :
    ∃ spans, parseSpans text.toList = .ok spans ∧
      tree = spans.mapRange (Text.rangeOf (Text.lineStarts text.toList)) := by
  simp only [parse] at parsed
  split at parsed
  · rename_i spans read
    cases parsed
    exact ⟨spans, read, rfl⟩
  · cases parsed

theorem parseSpans_laminar {tree : Node Span} (parsed : parseSpans chars = .ok tree) :
    tree.Laminar := by
  obtain ⟨statements, stop, reads, -, rfl⟩ := parseSpans_eq_ok.mp parsed
  have laid : Laid _ _ _ := reads.laid
  exact (laid.around (by simp) (Input.offset_le reads.le)).laminar _ (List.mem_singleton_self _)

theorem parseSpans_origin {tree : Node Span} {part : Node Span} {address : List Slot}
    (parsed : parseSpans chars = .ok tree) (found : tree.at? address = some part) :
    Origin (.ofText chars) part := by
  obtain ⟨statements, stop, reads, -, rfl⟩ := parseSpans_eq_ok.mp parsed
  have all : Everywhere (Origin (.ofText chars)) [_] :=
    .around (.whole reads) (by simpa using reads.origin (le_refl _))
  exact all _ (List.mem_singleton_self _) part ⟨address, found⟩

/-- Every node of a template was made by one of the rules, and has its place told in lines. -/
theorem parse_origin {text : String} {tree node : Node Range} {address : List Slot}
    (parsed : parse text = .ok tree) (found : tree.at? address = some node) :
    ∃ part, Origin (.ofText text.toList) part ∧
      node = part.mapRange (Text.rangeOf (Text.lineStarts text.toList)) := by
  obtain ⟨spans, read, rfl⟩ := parse_eq_ok parsed
  rw [Node.at?_mapRange, Option.map_eq_some_iff] at found
  obtain ⟨part, found, rfl⟩ := found
  exact ⟨part, parseSpans_origin read found, rfl⟩

/-- The places of a tree in a text: each begins no later than it ends, lies inside the places of all
placed nodes around, and touches the places of unrelated nodes at most at an end; and the nodes
without a place, of which the root is none, came from no part of the text. -/
structure WellPlaced (text : String) (tree : Node Range) : Prop where
  forward {address : List Slot} {node : Node Range} {range : Range}
    (found : tree.at? address = some node) (placed : node.range = some range) :
    range.start ≤ range.stop
  nested {address below : List Slot} {node part : Node Range} {outer inner : Range}
    (found : tree.at? address = some node) (held : node.at? below = some part)
    (around : node.range = some outer) (placed : part.range = some inner) :
    outer.start ≤ inner.start ∧ inner.stop ≤ outer.stop
  apart {address elsewhere : List Slot} {node other : Node Range} {range place : Range}
    (found : tree.at? address = some node) (otherFound : tree.at? elsewhere = some other)
    (notAbove : ¬ address <+: elsewhere) (notBelow : ¬ elsewhere <+: address)
    (placed : node.range = some range) (otherPlaced : other.range = some place) :
    (range.stop ≤ place.start ∨ place.stop ≤ range.start) ∧
      ∀ p q, range.contains p → place.contains p → range.contains q → place.contains q → p = q
  root : ∃ range, tree.range = some range
  placeless {address : List Slot} {slot : Slot} {parent node : Node Range}
    (found : tree.at? address = some parent) (held : parent.child? slot = some node) :
    node.range = none ↔
      Placeless (Text.rangeOf (Text.lineStarts text.toList)) text.toList parent slot node

/-- Ranges of which one ends before or where the other begins share at most that position. -/
private theorem eq_of_shared {range place : Range} (apart : Apart range place) {p q : Position}
    (here : range.contains p) (there : place.contains p) (hereToo : range.contains q)
    (thereToo : place.contains q) : p = q := by
  rw [Range.contains_iff] at here there hereToo thereToo
  rcases apart with before | behind
  · have first : p = place.start := le_antisymm (here.2.trans before) there.1
    have second : q = place.start := le_antisymm (hereToo.2.trans before) thereToo.1
    exact first.trans second.symm
  · have first : p = range.start := le_antisymm (there.2.trans behind) here.1
    have second : q = range.start := le_antisymm (thereToo.2.trans behind) hereToo.1
    exact first.trans second.symm

/-- Positions keep the tree of a text laminar. -/
theorem parse_laminar {text : String} {tree : Node Range} (parsed : parse text = .ok tree) :
    tree.Laminar := by
  obtain ⟨spans, read, rfl⟩ := parse_eq_ok parsed
  exact (parseSpans_laminar read).mapRange (Text.positionOf_strictMono text.toList).monotone
    (fun _ => rfl) (fun _ => rfl)

/-- The places of every template lie well in its text. -/
theorem parse_wellPlaced {text : String} {tree : Node Range} (parsed : parse text = .ok tree) :
    WellPlaced text tree := by
  have laminar := parse_laminar parsed
  refine ⟨?_, ?_, ?_, ?_, ?_⟩
  · intro address node range found placed
    exact (laminar.at? found).first_le_last placed
  · intro address below node part outer inner found held around placed
    exact (laminar.at? found).inside_ancestor around held placed
  · intro address elsewhere node other range place found otherFound notAbove notBelow placed
      otherPlaced
    have apart := laminar.apart_of_unrelated found otherFound placed otherPlaced notAbove notBelow
    exact ⟨apart, fun p q => eq_of_shared apart⟩
  · obtain ⟨spans, read, rfl⟩ := parse_eq_ok parsed
    obtain ⟨statements, stop, -, -, rfl⟩ := parseSpans_eq_ok.mp read
    exact ⟨_, by rw [Node.range_mapRange]; rfl⟩
  · intro address slot parent node found held
    obtain ⟨spans, read, rfl⟩ := parse_eq_ok parsed
    rw [Node.at?_mapRange, Option.map_eq_some_iff] at found
    obtain ⟨parent, found, rfl⟩ := found
    rw [Node.child?_mapRange, Option.map_eq_some_iff] at held
    obtain ⟨node, held, rfl⟩ := held
    rw [Node.range_mapRange, Option.map_eq_none_iff,
      (parseSpans_origin read found).placeless_iff (Node.child?_eq_some.mp held),
      Placeless.mapRange_iff (Text.rangeOf_injective _)]

theorem wellPlaced_of_else_chain :
    ∃ tree, parse "<p a>\x7b\x7b#if b\x7d\x7d\x7b\x7belse if c\x7d\x7d\x7b\x7b/if\x7d\x7d</p>" = .ok tree ∧
      WellPlaced "<p a>\x7b\x7b#if b\x7d\x7d\x7b\x7belse if c\x7d\x7d\x7b\x7b/if\x7d\x7d</p>" tree := by
  have read : (parse "<p a>\x7b\x7b#if b\x7d\x7d\x7b\x7belse if c\x7d\x7d\x7b\x7b/if\x7d\x7d</p>").isOk =
      true := by
    decide +kernel
  cases parsed : parse "<p a>\x7b\x7b#if b\x7d\x7d\x7b\x7belse if c\x7d\x7d\x7b\x7b/if\x7d\x7d</p>" with
  | error fault =>
    rw [parsed] at read
    cases read
  | ok tree => exact ⟨tree, rfl, parse_wellPlaced parsed⟩

end EmberAssist.Template
