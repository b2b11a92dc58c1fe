import Mathlib.Data.List.DropRight
import EmberAssist.Proofs.Template.Fidelity
import EmberAssist.Proofs.Template.Offered

/-! Names of blocks are not completed. The placeholder is typed into the name that a block is opened by
and not into the one that it is closed by, so the patched text has no such block. What can be completed
as a block is the call in an else tag, which goes on with a block of another name. -/
namespace EmberAssist.Template

open Node Text

/-! ## How blocks are opened -/

/-- What a block call invokes. -/
def blockCallee? {α : Type} : Layer α → Option α
  | .blockCall call .. => some call.callee
  | _ => none

theorem blockCallee?_map {α β : Type} (f : α → β) (layer : Layer α) :
    blockCallee? (layer.map f) = (blockCallee? layer).map f := by
  cases layer <;> rfl

/-- A block that a tag with a hash opens. -/
inductive Hashed (root : Input) : Node Span → Prop where
  | mk {params : List String} {call : Call (Node Span)} {program : Node Span}
      {inverse : Option (Node Span)} (reach : root ≤ input)
      (opens : input.eat? openBraces = some opened) (hash : opened.skipTilde.eat? ['#'] = some next)
      (tag : Reads depth .blockTag next (.blockTag call params) behind)
      (tail : Reads depth (.blockTail (calleeName call.callee) params) behind
        (.blockTail program inverse) closed) :
      Hashed root (.between input closed (.blockCall call program inverse))

variable {chars front typed back : List Char} {depth : Nat}
variable {root input opened next behind closed : Input} {parent node : Node Span} {place : Span}

private theorem Layer.IsToken.blockCallee? {α : Type} {layer : Layer α} (token : layer.IsToken) :
    blockCallee? layer = none := by
  cases layer <;> first | rfl | cases token

/-- A block is opened by a tag with a hash or goes on with another block in an else tag. -/
theorem Origin.hashed_or_link (origin : Origin root parent)
    (block : blockCallee? parent.layer = some node) : Hashed root parent ∨ Link root parent := by
  have of_token {goal : Prop} (token : parent.layer.IsToken) : goal := by
    rw [token.blockCallee?] at block
    cases block
  cases origin with
  | link link => exact .inr link
  | single reach reads =>
    cases reads with
    | block plain opens block hash tag tail => exact .inl ⟨reach, opens, hash, tag, tail⟩
    | string plain quoted read => exact of_token (isToken_of_readString read)
    | word plain bare read => exact of_token (isToken_of_readWord read)
    | quotedValue plain quoted inside =>
      simp only [Node.between, Node.layer, Template.quotedValue] at block
      split at block <;> cases block
    | mustacheComment opens comment => exact of_token (isToken_of_readMustacheComment comment)
    | comment plain bare opens comment => exact of_token (isToken_of_readComment comment)
    | subExpression | mustacheStatement | mustacheValue | bareValue | valueless | attr | element
    | text => cases block
  | comment reach opens comment => exact of_token (isToken_of_readMustacheComment comment)
  | whole | pair | hash | mustache | modifier | piece | unvalued | block | chain => cases block

/-! ## What stands before a name -/

/-- The last character of a text before the name, or the part of a name, that it ends in. Blanks before
the name do not count. -/
def nameOpener? (text : List Char) : Option Char :=
  ((text.rdropWhile Input.isPathChar).rdropWhile isBlank).getLast?

private theorem rdropWhile_append {α : Type} {p : α → Bool} {l₁ l₂ : List α}
    (all : ∀ a ∈ l₂, p a = true) : (l₁ ++ l₂).rdropWhile p = l₁.rdropWhile p := by
  rw [List.rdropWhile, List.reverse_append, List.dropWhile_append_of_pos (by simpa using all),
    List.rdropWhile]

/-- A character opens the name behind it if neither the name nor the blanks between could have it. -/
theorem nameOpener?_append {before blanks word : List Char} {c : Char}
    (blank : ∀ b ∈ blanks, isBlank b = true) (named : ∀ d ∈ word, Input.isPathChar d = true)
    (solid : isBlank c = false) (apart : Input.isPathChar c = true → blanks ≠ []) :
    nameOpener? (before ++ c :: blanks ++ word) = some c := by
  have stops : (before ++ c :: blanks).rdropWhile Input.isPathChar = before ++ c :: blanks := by
    rw [List.rdropWhile_eq_self_iff]
    intro filled
    rcases List.eq_nil_or_concat' blanks with rfl | ⟨others, b, rfl⟩
    · simpa using fun path => apart path rfl
    · intro path
      have := Input.isBlank_of_path (c := b) (by simpa using path)
      rw [blank b (by simp)] at this
      cases this
  have split : before ++ c :: blanks = before ++ [c] ++ blanks := by simp
  rw [nameOpener?, rdropWhile_append named, stops, split, rdropWhile_append blank,
    List.rdropWhile_concat, if_neg (by simp [solid]), List.getLast?_concat]

/-- Where a name in a text is cut, the first piece ends in a part of the name. -/
private theorem PathStands.exists_early {before word after : List Char}
    (stands : PathStands (front ++ back) node before word after) (placed : node.range = some place)
    (first : place.start ≤ front.length) (last : front.length ≤ place.stop) :
    ∃ early, front = before ++ early ∧ ∀ d ∈ early, Input.isPathChar d = true := by
  rw [stands.made] at placed
  cases placed
  have source := stands.source
  obtain ⟨early, rfl⟩ : before <+: front :=
    List.prefix_of_prefix_length_le ⟨word ++ after, source.symm⟩ ⟨_, rfl⟩ first
  rw [List.append_assoc] at source
  have part : early <+: word :=
    List.prefix_of_prefix_length_le ⟨_, List.append_cancel_left source⟩ ⟨_, rfl⟩
      (by simpa using last)
  exact ⟨early, rfl, fun d member => stands.named d (part.subset member)⟩

/-- An input stands in a text behind some characters. -/
def Input.Behind (chars before : List Char) (input : Input) : Prop :=
  chars = before ++ input.rest ∧ input.offset = before.length

private theorem Input.exists_behind (reach : .ofText chars ≤ input) :
    ∃ before, input.Behind chars before := Input.source_of_reach reach

private theorem Input.Behind.passes {before read : List Char} (here : input.Behind chars before)
    (passes : input.Passes read next) : next.Behind chars (before ++ read) := by
  refine ⟨?_, ?_⟩
  · rw [here.1, passes.1, List.append_assoc]
  · rw [passes.2, here.2, List.length_append]

/-- What a block tag calls stands behind the blanks before it. -/
private theorem stands_of_blockTag {call : Call (Node Span)} {params : List String}
    {before : List Char} (reach : .ofText chars ≤ input)
    (here : input.skipBlank.Behind chars before)
    (tag : Reads depth .blockTag input (.blockTag call params) behind)
    (path : (pathSpelling? call.callee.layer).isSome = true) :
    ∃ word after, PathStands chars call.callee before word after := by
  cases tag with
  | blockTag invoked declared closes =>
    cases invoked with
    | call called given =>
      obtain ⟨within, word, place, stands⟩ := called.pathStands reach path
      obtain ⟨rfl, -⟩ := List.append_inj (stands.source.symm.trans here.1) (place.trans here.2)
      exact ⟨word, _, stands⟩

/-- Between a hash and the braces before it are blanks and a tilde at most. -/
private theorem exists_brace (reach : .ofText chars ≤ input)
    (opens : input.eat? openBraces = some opened) : ∃ before c blanks, (c = '{' ∨ c = '~') ∧
      (∀ b ∈ blanks, isBlank b = true) ∧ opened.skipTilde.Behind chars (before ++ c :: blanks) := by
  obtain ⟨before, start⟩ := Input.exists_behind reach
  obtain ⟨blanks, blank, spaced⟩ := Input.passes_skipBlank opened
  obtain ⟨tilde, either, passes⟩ := Input.passes_skipOptional ['~'] opened.skipBlank
  have here := ((start.passes (Input.passes_of_eat? opens)).passes spaced).passes passes
  rcases either with rfl | rfl
  · refine ⟨before ++ ['{'], '{', blanks, .inl rfl, blank, ?_⟩
    have split : before ++ ['{'] ++ '{' :: blanks = before ++ openBraces ++ blanks ++ [] := by
      simp [openBraces]
    rw [split]
    exact here
  · exact ⟨_, '~', [], .inr rfl, by simp, here⟩

theorem Hashed.nameOpener?_ne (hashed : Hashed (.ofText (front ++ back)) parent)
    (block : blockCallee? parent.layer = some node) (path : (pathSpelling? node.layer).isSome = true)
    (placed : node.range = some place) (first : place.start ≤ front.length)
    (last : front.length ≤ place.stop) : nameOpener? front ≠ some 'e' := by
  obtain ⟨reach, opens, hash, tag, tail⟩ := hashed
  cases block
  obtain ⟨before, c, gap, brace, gapBlank, here⟩ := exists_brace reach opens
  obtain ⟨blanks, blank, spaced⟩ := Input.passes_skipBlank _
  obtain ⟨word, after, stands⟩ := stands_of_blockTag
    (reach.trans ((Input.le_of_eat? opens).trans ((Input.le_skipTilde _).trans
      (Input.le_of_eat? hash)))) ((here.passes (Input.passes_of_eat? hash)).passes spaced) tag path
  obtain ⟨early, rfl, named⟩ := stands.exists_early placed first last
  have solid : isBlank c = false := by rcases brace with rfl | rfl <;> decide
  have outside : Input.isPathChar c = false := by rcases brace with rfl | rfl <;> decide
  by_cases joined : blanks = []
  · -- Without blanks the hash could be a part of the name.
    have split : before ++ c :: gap ++ ['#'] ++ blanks ++ early =
        before ++ c :: gap ++ '#' :: early := by simp [joined]
    have hashNamed : ∀ d ∈ '#' :: early, Input.isPathChar d = true :=
      List.forall_mem_cons.mpr ⟨by decide, named⟩
    rw [split, nameOpener?_append gapBlank hashNamed solid (by simp [outside])]
    rcases brace with rfl | rfl <;> simp
  · have split : before ++ c :: gap ++ ['#'] ++ blanks ++ early =
        (before ++ c :: gap) ++ '#' :: blanks ++ early := by simp
    rw [split, nameOpener?_append blank named (by decide) fun _ => joined]
    simp

theorem Link.nameOpener?_eq (link : Link (.ofText (front ++ back)) parent)
    (block : blockCallee? parent.layer = some node) (path : (pathSpelling? node.layer).isSome = true)
    (placed : node.range = some place) (first : place.start ≤ front.length)
    (last : front.length ≤ place.stop) : nameOpener? front = some 'e' := by
  obtain @⟨_, opened, _, _, _, _, _, _, _, _, reach, otherwise, chained, tag, tail⟩ := link
  cases block
  obtain ⟨opener, -, spaces, -, passes⟩ := Input.passes_of_eatElse? otherwise
  obtain ⟨before, start⟩ := Input.exists_behind reach
  obtain ⟨blanks, blank, spaced⟩ := Input.passes_skipBlank _
  have here := (start.passes passes).passes spaced
  rw [← Input.skipBlank_skipBlank] at here
  obtain ⟨word, after, stands⟩ := stands_of_blockTag
    (reach.trans ((Input.le_of_eatElse? otherwise).trans (Input.le_skipBlank _))) here tag path
  obtain ⟨early, rfl, named⟩ := stands.exists_early placed first last
  have split : before ++ (opener ++ spaces ++ ['e', 'l', 's', 'e']) ++ blanks ++ early =
      (before ++ opener ++ spaces ++ ['e', 'l', 's']) ++ 'e' :: blanks ++ early := by simp
  rw [split, nameOpener?_append blank named (by decide) ?_]
  rintro - rfl
  -- Without blanks the name would be a part of the word.
  obtain ⟨d, others, rfl⟩ := List.exists_cons_of_ne_nil stands.filled
  have next : opened.rest = d :: others ++ after := by
    rw [spaced.1, List.nil_append, ← Input.skipBlank_skipBlank]
    exact List.append_cancel_left (here.1.symm.trans stands.source)
  have ends := Input.endsElse_of_eatElse? otherwise d (by rw [next]; rfl)
  rw [Input.endsElse_of_path (stands.named d (by simp))] at ends
  cases ends

/-! ## How blocks are closed -/

/-- A block that is opened by a name with something typed in it would be closed by that name, which has
been typed nowhere else. -/
theorem Hashed.not_typed {head : Char} {tail : List Char}
    (hashed : Hashed (.ofText (front ++ (head :: tail ++ back))) parent)
    (once : head ∉ tail) (plain : ∀ c ∈ head :: tail, Input.isPathChar c = true)
    (fresh : ¬ head :: tail <:+: front ++ back) (block : blockCallee? parent.layer = some node)
    (path : (pathSpelling? node.layer).isSome = true) (placed : node.range = some place)
    (first : place.start ≤ front.length) : place.stop < front.length := by
  by_contra last
  rw [not_lt] at last
  obtain ⟨reach, opens, hash, tag, rest⟩ := hashed
  cases block
  have inside := reach.trans ((Input.le_of_eat? opens).trans ((Input.le_skipTilde _).trans
    (Input.le_of_eat? hash)))
  obtain ⟨before, here⟩ := Input.exists_behind (inside.trans (Input.le_skipBlank _))
  obtain ⟨word, after, stands⟩ := stands_of_blockTag inside here tag path
  obtain ⟨early, late, rfl, rfl⟩ := stands.holds_typed plain placed first last
  have bounds := (tag.bounds (show _ ∈ (Yield.blockTag _ _).nodes by simp [Call.nodes]) (.self _)
    placed).2
  obtain ⟨name, within, closing, called, closes, passes⟩ := rest.closes_of_blockTail
  rw [calleeName_eq, stands.layer] at called
  rw [stands.layer] at path
  rw [(spelling?_wordLayer path).2.1, Option.some.injEq, String.ofList_inj] at called
  subst called
  obtain ⟨opener, -, closer, -, left, right, -, rfl⟩ := closes
  obtain ⟨begun, ending, offset, source⟩ := passes.source (inside.trans tag.le)
  have again : before ++ early ++ (head :: tail ++ back) =
      (begun ++ within ++ opener ++ '/' :: left ++ early) ++
        (head :: tail ++ (late ++ right ++ closer ++ ending)) := by
    rw [source]
    simp
  have same := Text.length_eq_of_once once fresh again
  rw [stands.made] at placed
  cases placed
  rw [offset] at bounds
  simp only [List.length_append, List.length_cons] at same bounds
  omega

/-! ## What is completed as a block -/

theorem Trail.of_block {α : Type} [NodeLike α] {trail : Trail α} (block : trail.context = .block) :
    ∃ above visit, trail.parent? = some above ∧ (blockCallee? above.layer).isSome = true ∧
      trail.focus? = some visit ∧ (pathSpelling? visit.layer).isSome = true ∧
        .callee ∈ visit.slots := by
  have held : trail.isBlockPath = true := by
    unfold context at block
    split_ifs at block with mustache path
    exact path
  unfold isBlockPath at held
  split at held
  · rename_i call program inverse layer
    obtain ⟨above, parent, layer⟩ := Option.map_eq_some_iff.mp layer
    obtain ⟨path, slot⟩ := Bool.and_eq_true_iff.mp held
    cases focus : trail.focus? with
    | none => simp [isAtPath, focus] at path
    | some visit =>
      simp only [isAtPath, isHeldIn, focus, Option.bind_some, Option.map_some, Option.getD_some,
        List.contains_iff_mem] at path slot
      exact ⟨above, visit, parent, by rw [layer]; rfl, rfl, path, slot⟩
  · cases held

private theorem blockCallee?_of_child? {ρ : Type} {parent node : Node ρ}
    (block : (blockCallee? parent.layer).isSome = true)
    (held : parent.child? .callee = some node) : blockCallee? parent.layer = some node := by
  have held := child?_eq_some.mp held
  cases layer : parent.layer <;>
    simp_all [blockCallee?, Layer.slots, Layer.callSlots, numbered]

section Focus
variable {document : Document} {p : Position} {trail : Trail (Node Range)}
variable {tree block name : Node Range} {address : List Slot}

/-- A name in focus as the name of a block is the one in an else tag. -/
theorem Cut.nameOpener?_of_block (cut : Cut document p front back)
    (fresh : ¬ Settings.usual.placeholder.toList <:+: document.chars)
    (gives : Template.focusAt parse Settings.usual.placeholder document p = .ok (some trail))
    (block : trail.context = .block) : nameOpener? front = some 'e' := by
  obtain ⟨tail, typed, once, -⟩ := placeholder_eq
  obtain ⟨above, visit, parent, block, focus, path, slot⟩ := Trail.of_block block
  obtain ⟨spans, other, parsed, same, -, held⟩ := cut.focusAt typed (by decide) gives
  cases focus.symm.trans same
  obtain ⟨outer, ⟨address, found⟩, shows, held⟩ := held above parent
  obtain ⟨node, there, around⟩ := held .callee slot
  have named : visit.layer = node.layer.map (inText _) := around.layer
  rw [named, pathSpelling?_map] at path
  obtain ⟨-, -, place, placed, first, last⟩ := around
  have outerLayer : above.layer = outer.layer.map (inText _) :=
    (congrArg Node.layer shows.symm).trans (layer_mapRange _ outer)
  rw [outerLayer, blockCallee?_map, Option.isSome_map] at block
  have block := blockCallee?_of_child? block there
  rcases (parseSpans_origin parsed found).hashed_or_link block with hashed | link
  · rw [typed] at hashed
    rw [typed, cut.source] at fresh
    have plain : ∀ c ∈ 'G' :: tail, Input.isPathChar c = true := fun c member =>
      (placeholder_plain c (typed ▸ member)).1
    exact absurd last (not_le.mpr (hashed.not_typed once plain fresh block path placed first))
  · exact link.nameOpener?_eq block path placed first last

/-- The cursor is at the name of a block that a tag with a hash opens, its ends included. -/
structure AtBlockName (document : Document) (p : Position) (block name : Node Range) : Prop where
  opened : ∃ part range, block.range = some range ∧
    Covers (Text.rangeOf document.starts) document.chars part range ∧
      ∃ opener ∈ Input.openers, opener ++ ['#'] <+: part
  called : blockCallee? block.layer = some name
  named : (pathSpelling? name.layer).isSome = true
  inside : ∃ range, name.range = some range ∧ range.contains (document.codepointPosition p)

/-- No tag begins with a hash and with the word of an else tag. -/
private theorem Link.not_hash {before part after : List Char} {opener : List Char}
    (link : Link (.ofText (before ++ part ++ after)) node) (placed : node.range = some place)
    (begins : place.start = before.length) (opening : opener ∈ Input.openers)
    (hash : opener ++ ['#'] <+: part) : False := by
  obtain ⟨reach, otherwise, -, -, -⟩ := link
  cases placed
  obtain ⟨other, otherOpening, blanks, blank, passes⟩ := Input.passes_of_eatElse? otherwise
  obtain ⟨start, rest, offset, source⟩ := passes.source reach
  obtain ⟨behind, rfl⟩ := hash
  have source : before ++ (opener ++ '#' :: (behind ++ after)) =
      start ++ (other ++ (blanks ++ 'e' :: ('l' :: 's' :: 'e' :: rest))) := by
    simpa using source
  have same := (List.append_inj source (begins.symm.trans offset)).2
  -- Behind the braces there is a hash, perhaps behind a tilde, and there are blanks or a letter.
  have differ (c : Char) (more : List Char) (mark : c = '#' ∨ c = '~') :
      c :: more ≠ blanks ++ 'e' :: ('l' :: 's' :: 'e' :: rest) := by
    cases blanks with
    | nil =>
      rintro ⟨⟩
      simp at mark
    | cons d blanks =>
      rintro ⟨⟩
      have := blank c (by simp)
      rcases mark with rfl | rfl <;> exact absurd this (by decide)
  simp only [Input.openers, List.mem_cons, List.not_mem_nil, or_false] at opening otherOpening
  rcases opening with rfl | rfl <;> rcases otherOpening with rfl | rfl <;>
    simp only [openBraces, List.cons_append, List.nil_append, List.cons.injEq, true_and] at same
  · exact differ _ _ (.inl rfl) same
  · exact absurd same.1 (by decide)
  · exact differ _ _ (.inr rfl) same
  · exact differ _ _ (.inl rfl) same

/-- The name of a block that a tag with a hash opens is never completed. -/
theorem not_block_at_hashed_name
    (fresh : ¬ Settings.usual.placeholder.toList <:+: document.chars)
    (parsed : parse (String.ofList document.chars) = .ok tree)
    (found : tree.at? address = some block) (cursor : AtBlockName document p block name) :
    ¬ ∃ trail, focusAt parse Settings.usual.placeholder document p = .ok (some trail) ∧
      trail.context = .block := by
  rintro ⟨trail, gives, context⟩
  obtain ⟨front, back, cut⟩ := exists_cut document p
  have opener := cut.nameOpener?_of_block fresh gives context
  obtain ⟨spans, read, rfl⟩ := parse_ofList.mp parsed
  rw [at?_inText, Option.map_eq_some_iff] at found
  obtain ⟨outer, found, rfl⟩ := found
  obtain ⟨⟨part, range, around, covers, _, opening, hash⟩, called, path, place, placed, inside⟩ :=
    cursor
  rw [layer_inText, blockCallee?_map, Option.map_eq_some_iff] at called
  obtain ⟨callee, called, rfl⟩ := called
  rw [layer_inText, pathSpelling?_map] at path
  rw [range_inText, Option.map_eq_some_iff] at placed around
  obtain ⟨span, placed, rfl⟩ := placed
  obtain ⟨outerSpan, outerPlaced, rfl⟩ := around
  have ordered := Text.positionOf_strictMono document.chars
  rw [Range.contains_iff, Document.codepointPosition, cut.here] at inside
  rcases (parseSpans_origin read found).hashed_or_link called with hashed | link
  · rw [cut.source] at hashed
    exact hashed.nameOpener?_ne called path placed (ordered.le_iff_le.mp inside.1)
      (ordered.le_iff_le.mp inside.2) opener
  · obtain ⟨before, after, source, same⟩ := covers
    have same := Text.rangeOf_injective document.chars same
    rw [source] at link
    exact link.not_hash outerPlaced (by rw [same]) opening hash

/-- A document with a block that holds nothing. -/
def emptyBlock : Document := ⟨"", "\x7b\x7b#foo\x7d\x7d\x7b\x7b/foo\x7d\x7d".toList, 0⟩

theorem not_block_at_hashed_name_behind_name : ∃ tree block name,
    ¬ Settings.usual.placeholder.toList <:+: emptyBlock.chars ∧
      parse (String.ofList emptyBlock.chars) = .ok tree ∧ tree.at? [.body 0] = some block ∧
        AtBlockName emptyBlock ⟨0, 6⟩ block name ∧
          ¬ ∃ trail, focusAt parse Settings.usual.placeholder emptyBlock ⟨0, 6⟩ = .ok (some trail) ∧
            trail.context = .block := by
  have read : ((parse (String.ofList emptyBlock.chars)).toOption.bind fun tree =>
      (tree.at? [.body 0]).bind fun block => (blockCallee? block.layer).map fun name =>
        (block.range, pathSpelling? name.layer, name.range)) =
      some (some ⟨⟨0, 0⟩, ⟨0, 16⟩⟩, some "foo", some ⟨⟨0, 3⟩, ⟨0, 6⟩⟩) := by decide +kernel
  simp only [Option.bind_eq_some_iff, Option.map_eq_some_iff, Prod.mk.injEq] at read
  obtain ⟨tree, parsed, block, found, name, called, placed, spelled, namePlaced⟩ := read
  have parsed : parse (String.ofList emptyBlock.chars) = .ok tree := by
    cases given : parse (String.ofList emptyBlock.chars) <;> rw [given] at parsed <;> cases parsed
    rfl
  have fresh : ¬ Settings.usual.placeholder.toList <:+: emptyBlock.chars := by decide +kernel
  have covers : Covers (Text.rangeOf emptyBlock.starts) emptyBlock.chars emptyBlock.chars
      ⟨⟨0, 0⟩, ⟨0, 16⟩⟩ := ⟨[], [], by decide +kernel, by decide +kernel⟩
  have cursor : AtBlockName emptyBlock ⟨0, 6⟩ block name :=
    ⟨⟨_, _, placed, covers, openBraces, by decide, by decide +kernel⟩, called, by rw [spelled]; rfl,
      _, namePlaced, by decide +kernel⟩
  exact ⟨tree, block, name, fresh, parsed, found, cursor,
    not_block_at_hashed_name fresh parsed found cursor⟩

/-- Behind the name in the tag that opens a block nothing is completed: the name that closes the block
is another. -/
theorem focusAt_behind_hashed_name : (parse (String.ofList emptyBlock.chars)).isOk = true ∧
    ¬ Settings.usual.placeholder.toList <:+: emptyBlock.chars ∧ ∃ error,
      focusAt parse Settings.usual.placeholder emptyBlock ⟨0, 6⟩ = .error error ∧
        error.message = "Block 'fooGlimmerCompletionDummy' closed by 'foo' (line 0, column 30)" := by
  refine ⟨by decide +kernel, by decide +kernel, ?_⟩
  have read : (match parse (String.ofList (insertPlaceholder emptyBlock.chars
      (emptyBlock.offsetAt ⟨0, 6⟩) Settings.usual.placeholder.toList)) with
        | .ok _ => none
        | .error error => some error.message) =
      some "Block 'fooGlimmerCompletionDummy' closed by 'foo' (line 0, column 30)" := by
    decide +kernel
  rw [focusAt]
  cases parsed : parse (String.ofList (insertPlaceholder emptyBlock.chars
      (emptyBlock.offsetAt ⟨0, 6⟩) Settings.usual.placeholder.toList)) with
  | error error =>
    rw [parsed] at read
    exact ⟨error, rfl, Option.some.inj read⟩
  | ok tree =>
    rw [parsed] at read
    cases read

end Focus

end EmberAssist.Template
