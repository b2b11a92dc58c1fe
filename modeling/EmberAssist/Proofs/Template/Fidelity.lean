import EmberAssist.Proofs.Template.Outcome
import EmberAssist.Proofs.Template.Tiling
import EmberAssist.Proofs.Template.TokenSource
import EmberAssist.Proofs.Text

/-! The tree of a template says what stands in its text. Every node that came from some part of the
text is spelled there as the node says, and what is opened there is closed. -/
namespace EmberAssist

namespace Template

open Text

variable {ρ σ : Type} {place : Span → ρ} {chars : List Char} {depth : Nat}
variable {root input opened behind next stop closed : Input}

/-- The value of a string is its text with every escaped quote replaced by the quote. -/
theorem replace_of_unescape {quote : Char} {raw value : List Char}
    (read : Input.unescape quote raw = some value) : replace ['\\', quote] [quote] raw = value := by
  rw [replace, if_neg (by simp)]
  induction raw using Input.unescape.induct quote generalizing value with
  | case1 =>
    cases read
    rfl
  | case2 c ends => simp [Input.unescape, ends] at read
  | case3 c differ =>
    simp only [Input.unescape, differ, ↓reduceIte, Option.some.injEq] at read
    subst read
    simp [replaceAfter, startsWith]
  | case4 c d rest escaped ih =>
    simp only [Input.unescape, escaped, and_self, ↓reduceIte, Option.map_eq_some_iff] at read
    obtain ⟨inside, later, rfl⟩ := read
    simp [replaceAfter, startsWith, escaped, ih later]
  | case5 d rest open_ => simp [Input.unescape, open_] at read
  | case6 c d rest open_ differ ih =>
    simp only [Input.unescape, open_, differ, ↓reduceIte, Option.map_eq_some_iff] at read
    obtain ⟨inside, later, rfl⟩ := read
    have here : startsWith (c :: d :: rest) ['\\', quote] = false := by
      rw [startsWith, ← Bool.not_eq_true, List.isPrefixOf_iff_prefix, List.cons_prefix_cons,
        List.cons_prefix_cons]
      rintro ⟨rfl, rfl, -⟩
      exact open_ ⟨rfl, rfl⟩
    rw [replaceAfter, here, if_neg Bool.false_ne_true, ih later]

/-! ## Spelling -/

/-- Some characters stand between two quotes of one sort. -/
def Quoted (part inside : List Char) : Prop :=
  ∃ quote, (quote = '\'' ∨ quote = '"') ∧ part = quote :: inside ++ [quote]

/-- A comment between braces goes from an opener to the first closer of the sort that the opener asks
for. An opener that is not followed by two dashes asks for the short one. -/
def SpellsComment (part value : List Char) : Prop :=
  ∃ isLong, ∃ opener ∈ Input.commentOpeners isLong, ∃ closer ∈ Input.commentClosers isLong,
    part = opener ++ (value ++ closer) ∧ (isLong = false → ¬ ['-', '-'] <+: value ++ closer) ∧
    ∀ other ∈ Input.commentClosers isLong, ∀ front back,
      value ++ closer = front ++ (other ++ back) → value.length ≤ front.length

/-- A block is opened by a tag with a hash and a name in it and closed by a tag with that name. -/
def OpensBlock (callee : Node ρ) (part : List Char) : Prop :=
  (∃ opener ∈ Input.openers, opener ++ ['#'] <+: part) ∧
    ∃ name closing, pathSpelling? callee.layer = some name ∧
      Input.ClosesBlock name.toList closing ∧ closing <:+ part

/-- A block goes on with a call in an else tag and is closed by a tag. -/
def LinksBlock (part : List Char) : Prop :=
  (∃ opener ∈ Input.openers, ∃ blanks, (∀ c ∈ blanks, isBlank c = true) ∧
    opener ++ blanks ++ ['e', 'l', 's', 'e'] <+: part) ∧
    ∃ name closing, Input.ClosesBlock name closing ∧ closing <:+ part

/-- What the characters that a node came from, the first of them at some offset, say of the node. -/
def Node.Spells (place : Span → ρ) (start : Nat) (part : List Char) (node : Node ρ) : Prop :=
  match node.layer with
  | .path spelling parts data => part = spelling.toList ∧
    part = join ['.'] (parts.map String.toList) ∧ data = startsWith part ['@']
  | .numberLiteral value spelling => part = spelling.toList ∧ Denotes part value
  | .booleanLiteral value => part = (if value then "true" else "false").toList
  | .nullLiteral => part = "null".toList
  | .undefinedLiteral => part = "undefined".toList
  | .stringLiteral value spelling => value = spelling ∧ ∃ quote inside,
    (quote = '\'' ∨ quote = '"') ∧ part = quote :: inside ++ [quote] ∧
      replace ['\\', quote] [quote] inside = value.toList
  | .comment value => part = ['<', '!', '-', '-'] ++ value.toList ++ ['-', '-', '>']
  | .mustacheComment value => SpellsComment part value.toList
  | .text string => part = string.toList ∨ Quoted part string.toList
  | .subExpression _ => ∃ inside, part = '(' :: inside ++ [')']
  | .mustache _ trusting => (trusting = true ↔ '{' :: openBraces <+: part) ∧ openBraces <+: part ∧
    (if trusting then '}' :: closeBraces else closeBraces) <:+ part
  | .modifier _ => openBraces <+: part ∧ closeBraces <:+ part
  | .blockCall call _ inverse => (OpensBlock call.callee part ∨ LinksBlock part) ∧
    ∀ block ∈ inverse, block.range = none → ∃ next begins, block.layer = .block [next] [] ∧
      next.range = some (place ⟨begins, start + part.length⟩)
  | .element tag selfClosing _ _ _ _ children => '<' :: tag.toList <+: part ∧
    if selfClosing then ['/', '>'] <:+ part ∧ children = []
    else if voidElements.contains tag then ['>'] <:+ part ∧ children = []
    else ∃ closing, ClosesTag tag.toList closing ∧ closing <:+ part
  | .attr name value => part = name.toList ∧ value.range = none ∨
    ∃ assigned, part = name.toList ++ ['='] ++ assigned ∧
      value.range = some (place ⟨start + (name.toList ++ ['=']).length, start + part.length⟩) ∧
      ∀ string, value.layer = .text string →
        if assigned.head? = some '\'' ∨ assigned.head? = some '"' then Quoted assigned string.toList
        else assigned = string.toList
  | .hashPair key _ => key.toList ++ ['='] <+: part
  | .concat _ => ∃ inside, Quoted part inside
  | .template .. | .block .. | .hash _ => True

/-- A node that came from some part of a text is spelled there. -/
def Node.Spelled (place : Span → ρ) (chars : List Char) (node : Node ρ) : Prop :=
  ∀ range, node.range = some range → ∃ before part after, chars = before ++ part ++ after ∧
    range = place ⟨before.length, before.length + part.length⟩ ∧
    node.Spells place before.length part

private theorem Input.Passes.spelled {part : List Char} {layer : Layer (Node Span)}
    (passes : input.Passes part closed) (reach : .ofText chars ≤ input)
    (spells : (Node.between input closed layer).Spells id input.offset part) :
    (Node.between input closed layer).Spelled id chars := by
  rintro range ⟨⟩
  obtain ⟨before, after, offset, source⟩ := passes.source reach
  exact ⟨before, part, after, source, by rw [passes.2, offset]; rfl, offset ▸ spells⟩

/-! ## Words and strings -/

private theorem spelled_of_word {node : Node Span} (reach : .ofText chars ≤ input)
    (read : readWord input = .ok (node, closed)) : node.Spelled id chars := by
  rcases readWord_eq_ok.mp read with ⟨⟨spelling, value⟩, number, rfl⟩ | ⟨-, word, taken, rfl⟩
  · refine (Input.passes_of_number? number).spelled reach ⟨?_, denotes_of_number? number⟩
    rw [String.toList_ofList]
  · refine (Input.passes_of_takeSome? taken).spelled reach ?_
    simp only [Node.Spells, Node.between, Node.layer, wordLayer, beq_iff_eq]
    split_ifs with yes no null undefined
    · rw [← String.toList_ofList (l := word), yes]
      rfl
    · rw [← String.toList_ofList (l := word), no]
      rfl
    · rw [← String.toList_ofList (l := word), null]
    · rw [← String.toList_ofList (l := word), undefined]
    · refine ⟨String.toList_ofList.symm, ?_, rfl⟩
      have parts : (splitOn '.' word).map (String.toList ∘ String.ofList) = splitOn '.' word := by
        simp [Function.comp_def]
      rw [List.map_map, parts, join_splitOn]

private theorem spelled_of_string {node : Node Span} (origin : Origin (.ofText chars) node)
    (string : (stringValue? node.layer).isSome = true) : node.Spelled id chars := by
  obtain ⟨before, quote, raw, value, after, stands⟩ := origin.string string
  rw [stands.made]
  rintro range ⟨⟩
  refine ⟨before, quote :: (raw ++ [quote]), after, ?_, ?_, rfl, quote, raw, stands.quoted, rfl,
    ?_⟩
  · rw [stands.source, List.append_assoc]
  · simp
  · rw [replace_of_unescape stands.read, String.toList_ofList]

/-! ## Comments -/

private theorem spelled_of_comment {node : Node Span} (reach : .ofText chars ≤ input)
    (opens : input.eat? ['<', '!', '-', '-'] = some opened)
    (comment : readComment input opened = .ok (node, closed)) : node.Spelled id chars := by
  obtain ⟨value, read, rfl⟩ := readComment_eq_ok.mp comment
  obtain ⟨stop, passes, closes, -⟩ := Input.passes_of_upTo read
  have whole := ((Input.passes_of_eat? opens).trans passes).trans (Input.passes_of_eat? closes)
  refine whole.spelled reach ?_
  simp only [Node.Spells, Node.between, Node.layer, String.toList_ofList]

/-- No closer of a comment begins before the one that ends it. -/
private theorem length_le_of_closer {isLong : Bool} {value closer front other back : List Char}
    (passes : opened.Passes value stop) (closes : stop.Passes closer closed)
    (first : ∀ early, opened ≤ early → early.offset < stop.offset →
      commentCloser isLong early = none)
    (member : other ∈ Input.commentClosers isLong)
    (found : value ++ closer = front ++ (other ++ back)) : value.length ≤ front.length := by
  by_contra shorter
  have whole := passes.trans closes
  have early : opened.Passes front ⟨opened.offset + front.length, other ++ (back ++ closed.rest)⟩ := by
    refine ⟨?_, rfl⟩
    rw [whole.1, found]
    simp
  have ends : Input.Passes ⟨opened.offset + front.length, other ++ (back ++ closed.rest)⟩ other
      ⟨opened.offset + front.length + other.length, back ++ closed.rest⟩ := ⟨rfl, rfl⟩
  have before : opened.offset + front.length < stop.offset := by
    rw [passes.2]
    omega
  have closes := Input.commentCloser_eq_some.mpr ⟨other, member, ends⟩
  rw [first _ early.le before] at closes
  cases closes

private theorem spelled_of_mustacheComment {isLong : Bool} {node : Node Span}
    (reach : .ofText chars ≤ input) (opens : input.commentOpen? = some (isLong, opened))
    (comment : readMustacheComment input isLong opened = .ok (node, closed)) :
    node.Spelled id chars := by
  obtain ⟨value, read, rfl⟩ := readMustacheComment_eq_ok.mp comment
  obtain ⟨stop, passes, closes, first⟩ := Input.passes_of_upTo read
  obtain ⟨⟨opener, opening, begins⟩, short⟩ := Input.passes_of_commentOpen? opens
  obtain ⟨closer, closing, ends⟩ := Input.commentCloser_eq_some.mp closes
  refine (begins.trans (passes.trans ends)).spelled reach ⟨isLong, opener, opening, closer, closing,
    ?_, ?_, ?_⟩
  · rw [String.toList_ofList]
  · rintro plain ⟨rest, dashes⟩
    rw [String.toList_ofList] at dashes
    have next : opened.eat? ['-', '-'] = some ⟨opened.offset + 2, rest ++ closed.rest⟩ :=
      Input.eat?_eq_some.mpr ⟨by rw [(passes.trans ends).1, ← dashes, List.append_assoc], rfl⟩
    rw [short plain] at next
    cases next
  · intro other member front back found
    rw [String.toList_ofList] at found ⊢
    exact length_le_of_closer passes ends first member found

/-! ## Invocations -/

private theorem spelled_of_subExpression {call : Call (Node Span)} (reach : .ofText chars ≤ input)
    (opens : input.eat? ['('] = some opened) (invoked : Reads depth .call opened (.call call) behind)
    (closes : behind.skipBlank.eat? [')'] = some closed) :
    (Node.between input closed (.subExpression call)).Spelled id chars := by
  obtain ⟨inside, passes⟩ := Input.exists_passes (invoked.le.trans (Input.le_skipBlank behind))
  have whole := ((Input.passes_of_eat? opens).trans passes).trans (Input.passes_of_eat? closes)
  exact whole.spelled reach ⟨inside, rfl⟩

private theorem spelled_of_mustache {call : Call (Node Span)} {trusting : Bool}
    (reach : .ofText chars ≤ input) (opens : input.eat? openBraces = some opened)
    (invoked : Reads depth .mustache opened (.mustache call trusting) closed) :
    (Node.between input closed (.mustache call trusting)).Spelled id chars := by
  have braces := Input.passes_of_eat? opens
  cases invoked with
  | trusting third invoked closes =>
    obtain ⟨inside, passes⟩ := Input.exists_passes
      ((Input.le_skipTilde _).trans (invoked.le.trans (Input.le_skipTilde _)))
    have whole := ((braces.trans (Input.passes_of_eat? third)).trans passes).trans
      (Input.passes_of_eat? closes)
    refine whole.spelled reach ⟨?_, ?_, List.suffix_append _ _⟩
    · refine iff_of_true rfl ⟨inside ++ '}' :: closeBraces, ?_⟩
      simp [openBraces]
    · exact ⟨'{' :: inside ++ '}' :: closeBraces, by simp⟩
  | mustache plain invoked closes =>
    obtain ⟨inside, passes⟩ := Input.exists_passes
      ((Input.le_skipTilde opened).trans (invoked.le.trans (Input.le_skipTilde _)))
    have within := passes.trans (Input.passes_of_eat? closes)
    refine (braces.trans within).spelled reach ⟨?_, List.prefix_append _ _, ?_⟩
    · refine iff_of_false Bool.false_ne_true ?_
      rintro ⟨rest, source⟩
      have third : inside ++ closeBraces = '{' :: rest := by
        simpa [openBraces] using source.symm
      have next : opened.eat? ['{'] = some ⟨opened.offset + 1, rest ++ closed.rest⟩ :=
        Input.eat?_eq_some.mpr ⟨by rw [within.1, third]; rfl, rfl⟩
      rw [plain] at next
      cases next
    · rw [← List.append_assoc]
      exact List.suffix_append _ _

private theorem spelled_of_modifier {call : Call (Node Span)} (reach : .ofText chars ≤ input)
    (opens : input.eat? openBraces = some opened)
    (invoked : Reads depth .modifier opened (.call call) closed) :
    (Node.between input closed (.modifier call)).Spelled id chars := by
  cases invoked with
  | modifier invoked closes =>
    obtain ⟨inside, passes⟩ := Input.exists_passes
      ((Input.le_skipTilde opened).trans (invoked.le.trans (Input.le_skipTilde _)))
    have whole := ((Input.passes_of_eat? opens).trans passes).trans (Input.passes_of_eat? closes)
    refine whole.spelled reach ⟨?_, List.suffix_append _ _⟩
    rw [List.append_assoc]
    exact List.prefix_append _ _

/-! ## Blocks -/

/-- The rest of a block ends in a tag that closes the block. -/
theorem Reads.closes_of_blockTail {name : Option String} {params : List String}
    {program : Node Span} {inverse : Option (Node Span)}
    (reads : Reads depth (.blockTail name params) input (.blockTail program inverse) closed) :
    ∃ word inside closing, name = some (String.ofList word) ∧ Input.ClosesBlock word closing ∧
      input.Passes (inside ++ closing) closed := by
  induction depth generalizing input params program inverse with
  | zero => cases reads
  | succ depth ih =>
    cases reads with
    | blockEnd body noElse closes same =>
      obtain ⟨inside, passes⟩ := Input.exists_passes body.le
      obtain ⟨closing, closesBlock, ends⟩ := Input.passes_of_closeBlock? closes
      exact ⟨_, inside, closing, same, closesBlock, passes.trans ends⟩
    | blockElse body otherwise last ends otherBody noElse closes same =>
      have order := body.le.trans ((Input.le_of_eatElse? otherwise).trans ((Input.le_skipBlank _).trans
        ((Input.le_skipTilde _).trans ((Input.le_of_eat? ends).trans otherBody.le))))
      obtain ⟨inside, passes⟩ := Input.exists_passes order
      obtain ⟨closing, closesBlock, ends⟩ := Input.passes_of_closeBlock? closes
      exact ⟨_, inside, closing, same, closesBlock, passes.trans ends⟩
    | blockChain body otherwise chained tag tail =>
      have order := body.le.trans ((Input.le_of_eatElse? otherwise).trans
        ((Input.le_skipBlank _).trans tag.le))
      obtain ⟨first, passes⟩ := Input.exists_passes order
      obtain ⟨word, inside, closing, same, closesBlock, ends⟩ := ih tail
      refine ⟨word, first ++ inside, closing, same, closesBlock, ?_⟩
      rw [List.append_assoc]
      exact passes.trans ends

/-- A block that goes on in an else tag ends where the block in that tag does. -/
private theorem Reads.link_of_blockTail {name : Option String} {params : List String}
    {program block : Node Span} {inverse : Option (Node Span)}
    (reads : Reads depth (.blockTail name params) input (.blockTail program inverse) closed)
    (held : block ∈ inverse) (unplaced : block.range = none) :
    ∃ next begins, block.layer = .block [next] [] ∧ next.range = some ⟨begins, closed.offset⟩ := by
  cases reads with
  | blockEnd body noElse closes same => cases held
  | blockElse body otherwise last ends otherBody noElse closes same =>
    cases held
    cases unplaced
  | blockChain body otherwise chained tag tail =>
    cases held
    exact ⟨_, _, rfl, rfl⟩

/-- Tags are longer than what a block's opening begins with. -/
private theorem length_lt_of_closesBlock {name closing opener : List Char}
    (closes : Input.ClosesBlock name closing) (opening : opener ∈ Input.openers) :
    opener.length < closing.length := by
  obtain ⟨other, otherOpening, closer, closing, left, right, -, rfl⟩ := closes
  simp only [Input.openers, Input.closers, List.mem_cons, List.not_mem_nil, or_false] at *
  rcases opening with rfl | rfl <;> rcases otherOpening with rfl | rfl <;>
    rcases closing with rfl | rfl <;>
    simp only [openBraces, closeBraces, List.length_append, List.length_cons, List.length_nil] <;>
    omega

private theorem spelled_of_block {call : Call (Node Span)} {params : List String}
    {program : Node Span} {inverse : Option (Node Span)} (reach : .ofText chars ≤ input)
    (opens : input.eat? openBraces = some opened) (block : input.seesBlockOpen = true)
    (hash : opened.skipTilde.eat? ['#'] = some next)
    (tag : Reads depth .blockTag next (.blockTag call params) behind)
    (tail : Reads depth (.blockTail (calleeName call.callee) params) behind
      (.blockTail program inverse) closed) :
    (Node.between input closed (.blockCall call program inverse)).Spelled id chars := by
  obtain ⟨word, inside, closing, called, closesBlock, ends⟩ := tail.closes_of_blockTail
  obtain ⟨first, passes⟩ := Input.exists_passes ((Input.le_of_eat? opens).trans
    ((Input.le_skipTilde _).trans ((Input.le_of_eat? hash).trans tag.le)))
  have whole := passes.trans ends
  obtain ⟨seen, found⟩ := Option.isSome_iff_exists.mp block
  obtain ⟨braced, braces, hashed⟩ := Option.bind_eq_some_iff.mp found
  obtain ⟨opener, opening, begins⟩ := Input.passes_of_eatOpen? braces
  have front := begins.trans (Input.passes_of_eat? hashed)
  refine whole.spelled reach ⟨.inl ⟨⟨opener, opening, ?_⟩, String.ofList word, closing, ?_, ?_, ?_⟩,
    fun inner held unplaced => ?_⟩
  · refine List.prefix_of_prefix_length_le ⟨_, front.1.symm⟩ ⟨_, whole.1.symm⟩ ?_
    have := length_lt_of_closesBlock closesBlock opening
    simp only [List.length_append, List.length_singleton]
    omega
  · rw [← calleeName_eq, called]
  · rwa [String.toList_ofList]
  · rw [← List.append_assoc]
    exact List.suffix_append _ _
  · obtain ⟨link, start, layer, placed⟩ := tail.link_of_blockTail held unplaced
    exact ⟨link, start, layer, by rw [placed, whole.2]; rfl⟩

private theorem spelled_of_link {node : Node Span} (link : Link (.ofText chars) node) :
    node.Spelled id chars := by
  obtain ⟨reach, otherwise, chained, tag, tail⟩ := link
  obtain ⟨word, inside, closing, -, closesBlock, ends⟩ := tail.closes_of_blockTail
  obtain ⟨opener, opening, blanks, blank, begins⟩ := Input.passes_of_eatElse? otherwise
  obtain ⟨first, passes⟩ := Input.exists_passes ((Input.le_skipBlank _).trans tag.le)
  have whole := (begins.trans passes).trans ends
  refine whole.spelled reach ⟨.inr ⟨⟨opener, opening, blanks, blank, ?_⟩, word, closing, closesBlock,
    ?_⟩, fun inner held unplaced => ?_⟩
  · exact (List.prefix_append _ _).trans (List.prefix_append _ _)
  · rw [← List.append_assoc]
    exact List.suffix_append _ _
  · obtain ⟨next, start, layer, placed⟩ := tail.link_of_blockTail held unplaced
    exact ⟨next, start, layer, by rw [placed, whole.2]; rfl⟩

/-! ## Elements -/

private theorem spelled_of_element {tag : List Char} {content : TagContent}
    {children : List (Node Span)} (reach : .ofText chars ≤ input)
    (tagged : (input.eat? ['<']).bind Input.tagName? = some (tag, behind))
    (read : Reads depth (.element tag) behind (.element content children) closed)
    (tiled : (Node.between input closed (elementLayer tag content children)).Tiled id chars) :
    (Node.between input closed (elementLayer tag content children)).Spelled id chars := by
  obtain ⟨opened, opens, named⟩ := Option.bind_eq_some_iff.mp tagged
  have name := (Input.passes_of_eat? opens).trans (Input.passes_of_tagName? named)
  cases read with
  | bareElement startTag bare =>
    obtain ⟨inside, passes⟩ := startTag.passes_of_tagContent
    refine (name.trans passes).spelled reach ?_
    simp only [Node.Spells, Node.between, Node.layer, elementLayer, String.toList_ofList]
    refine ⟨List.prefix_append _ _, ?_⟩
    rw [← List.append_assoc]
    cases closed_ : content.selfClosing with
    | true => exact ⟨List.suffix_append _ _, trivial⟩
    | false =>
      have void : voidElements.contains (String.ofList tag) = true := by
        simpa [isBare, closed_] using bare
      rw [if_neg Bool.false_ne_true, if_pos void, if_neg Bool.false_ne_true]
      exact ⟨List.suffix_append _ _, trivial⟩
  | filledElement startTag filled inside closes ends =>
    obtain ⟨open_, content_⟩ := Bool.or_eq_false_iff.mp filled
    simp only [Node.Tiled, Node.between, Node.layer, elementLayer, open_, content_, Bool.or_false,
      Bool.false_eq_true, ↓reduceIte, String.toList_ofList] at tiled
    obtain ⟨before, _, between, closing, after, ⟨within, rfl⟩, closesTag, source, placed, -⟩ := tiled
    rintro range ⟨⟩
    refine ⟨before, _, after, source, Option.some.inj placed, ?_⟩
    simp only [Node.Spells, Node.between, Node.layer, elementLayer, open_, content_,
      Bool.false_eq_true, ↓reduceIte, String.toList_ofList]
    exact ⟨⟨within ++ ['>'] ++ between ++ closing, by simp⟩, closing, closesTag,
      List.suffix_append _ _⟩

/-! ## Attributes -/

/-- An attribute value without invocations is one text or none. -/
private theorem Reads.quotedValue_eq_text {quote : Char} {pieces : List (Node Span)} {string : String}
    (reads : Reads depth (.pieces quote) input (.list pieces) closed)
    (text : Template.quotedValue pieces = Layer.text string) :
    input.Passes (string.toList ++ [quote]) closed := by
  cases reads with
  | lastPiece upTo more closes =>
    have whole := (Input.passes_of_takeUntil upTo).trans (Input.passes_of_eat? closes)
    rename_i found
    cases found with
    | nil =>
      cases text
      exact whole
    | cons c found =>
      cases text
      simpa [textPiece, textOf, Node.between, Node.layer] using whole
  | pieces upTo more open_ invoked rest =>
    simp [Template.quotedValue, isMustache, Node.between, Node.layer] at text

/-- An attribute value that is a text is spelled as it is or between quotes. -/
private theorem spelled_of_value {value : Node Span}
    (reads : Reads depth .value input (.node value) closed) :
    ∃ assigned, input.Passes assigned closed ∧ ∀ string, value.layer = .text string →
      if assigned.head? = some '\'' ∨ assigned.head? = some '"' then Quoted assigned string.toList
      else assigned = string.toList := by
  obtain ⟨assigned, passes⟩ := Input.exists_passes reads.le
  refine ⟨assigned, passes, fun string text => ?_⟩
  have unique {part : List Char} (other : input.Passes part closed) : assigned = part :=
    List.append_cancel_right (passes.1.symm.trans other.1)
  cases reads with
  | mustacheValue opens invoked => cases text
  | quotedValue plain quoted inside =>
    obtain ⟨rest, ahead, single⟩ := quoteAhead_eq_some.mp quoted
    have first : input.Passes [_] ⟨input.offset + 1, rest⟩ := ⟨ahead, rfl⟩
    rw [Input.skipOptional_of_head ahead] at inside
    obtain rfl := unique (first.trans (inside.quotedValue_eq_text text))
    rw [if_pos (by rcases single with rfl | rfl <;> simp)]
    exact ⟨_, single, rfl⟩
  | bareValue plain bare taken =>
    cases text
    obtain rfl := unique (Input.passes_of_takeSome? taken)
    rw [String.toList_ofList, if_neg]
    obtain ⟨-, filled⟩ := Input.takeSome?_eq_some.mp taken
    obtain ⟨c, others, rfl⟩ := List.exists_cons_of_ne_nil filled
    intro single
    have ahead : quoteAhead input = some c := quoteAhead_eq_some.mpr
      ⟨_, passes.1, by simpa using single⟩
    rw [bare] at ahead
    cases ahead

private theorem spelled_of_attr {node : Node Span} (reach : .ofText chars ≤ input)
    (reads : Reads depth .attr input (.node node) closed) : node.Spelled id chars := by
  cases reads with
  | valueless named ends =>
    exact (Input.passes_of_takeSome? named).spelled reach (.inl ⟨String.toList_ofList.symm, rfl⟩)
  | attr named equals assigned =>
    have name := (Input.passes_of_takeSome? named).trans (Input.passes_of_eat? equals)
    obtain ⟨part, passes, text⟩ := spelled_of_value assigned
    refine (name.trans passes).spelled reach (.inr ⟨part, ?_, ?_, text⟩)
    · rw [String.toList_ofList]
    · rw [assigned.range, String.toList_ofList, ← name.2, ← (name.trans passes).2]
      rfl

/-! ## All nodes -/

private theorem spelled_of_concat {node : Node Span} {parts : List (Node Span)}
    (layer : node.layer = .concat parts) (tiled : node.Tiled id chars) : node.Spelled id chars := by
  simp only [Node.Tiled, layer] at tiled
  obtain ⟨before, quote, inside, after, single, source, placed, -⟩ := tiled
  intro range here
  rw [placed] at here
  cases here
  refine ⟨before, _, after, source, rfl, ?_⟩
  simp only [Node.Spells, layer]
  exact ⟨inside, quote, single, rfl⟩

private theorem spelled_of_textValue {node : Node Span} {string : String}
    (reach : .ofText chars ≤ input) (reads : Reads depth .value input (.node node) closed)
    (layer : node.layer = .text string) : node.Spelled id chars := by
  obtain ⟨assigned, passes, text⟩ := spelled_of_value reads
  obtain ⟨before, after, offset, source⟩ := passes.source reach
  intro range placed
  rw [reads.range] at placed
  cases placed
  refine ⟨before, assigned, after, source, by rw [passes.2]; exact offset ▸ rfl, ?_⟩
  have spelled := text string layer
  simp only [Node.Spells, layer]
  split at spelled
  · exact .inr spelled
  · exact .inl spelled

private theorem spelled_of_single {production : Production} {node : Node Span}
    (reach : .ofText chars ≤ input) (reads : Reads depth production input (.node node) closed) :
    node.Spelled id chars := by
  have origin : Origin (.ofText chars) node := .single reach reads
  have whole := reads
  cases reads with
  | subExpression opens invoked closes =>
    exact spelled_of_subExpression (reach.trans (Input.le_skipBlank _)) opens invoked closes
  | string plain quoted read =>
    obtain ⟨value, -, rfl⟩ := readString_eq_ok.mp read
    exact spelled_of_string origin rfl
  | word plain bare read => exact spelled_of_word (reach.trans (Input.le_skipBlank _)) read
  | mustacheValue opens invoked => exact spelled_of_mustache reach opens invoked
  | @quotedValue _ _ _ _ pieces plain quoted inside =>
    by_cases invoked : pieces.any isMustache
    · have layer : Template.quotedValue pieces = .concat pieces := if_pos invoked
      exact spelled_of_concat layer origin.tiled
    · have layer : Template.quotedValue pieces = .text _ := if_neg invoked
      exact spelled_of_textValue reach whole layer
  | bareValue plain bare taken => exact spelled_of_textValue reach whole rfl
  | valueless | attr => exact spelled_of_attr reach whole
  | mustacheComment opens comment => exact spelled_of_mustacheComment reach opens comment
  | block plain opens block hash tag tail => exact spelled_of_block reach opens block hash tag tail
  | mustacheStatement plain opens single invoked => exact spelled_of_mustache reach opens invoked
  | comment plain bare opens comment => exact spelled_of_comment reach opens comment
  | element plain bare visible tagged read =>
    exact spelled_of_element reach tagged read origin.tiled
  | text plain bare visible untagged =>
    exact (Input.passes_takeText _).spelled reach (.inl String.toList_ofList.symm)

/-- A stretch of a text is made of characters. -/
private theorem exists_between {place : Span} (order : place.start ≤ place.stop)
    (within : place.stop ≤ chars.length) : ∃ before part after, chars = before ++ part ++ after ∧
      place = ⟨before.length, before.length + part.length⟩ := by
  refine ⟨chars.take place.start, (chars.drop place.start).take (place.stop - place.start),
    (chars.drop place.start).drop (place.stop - place.start), ?_, ?_⟩
  · rw [List.append_assoc, List.take_append_drop, List.take_append_drop]
  · cases place
    simp only [Span.mk.injEq, List.length_take, List.length_drop] at *
    omega

private theorem spelled_of_hash {afterNamed : Bool} {params pairs : List (Node Span)}
    (reach : .ofText chars ≤ input)
    (given : Reads depth (.arguments afterNamed) input (.arguments params pairs) closed) :
    (hashOf pairs).Spelled id chars := by
  intro range placed
  have laid : Laid _ _ (params ++ pairs) := given.laid
  have front : range ∈ (params ++ [hashOf pairs]).flatMap Node.front := by
    rw [List.flatMap_append, List.mem_append]
    exact .inr (by simp [Node.front_of_range placed])
  obtain ⟨-, order, last⟩ := (laid.hashed given.placed.2).within range front
  obtain ⟨before, source, offset⟩ := Input.source_of_reach (reach.trans given.le)
  obtain ⟨before, part, after, source, rfl⟩ := exists_between order
    (show _ ≤ chars.length by rw [source, List.length_append]; omega)
  exact ⟨before, part, after, source, rfl, trivial⟩

/-- Whatever a node was made from, it is spelled there. -/
theorem Origin.spelled {node : Node Span} (origin : Origin (.ofText chars) node) :
    node.Spelled id chars := by
  cases origin with
  | whole body =>
    obtain ⟨part, passes⟩ := Input.exists_passes body.le
    exact passes.spelled (le_refl _) trivial
  | single reach reads => exact spelled_of_single reach reads
  | pair reach named assigned =>
    obtain ⟨part, passes⟩ := Input.exists_passes assigned.le
    refine ((Input.passes_of_argumentName? named).trans passes).spelled reach ⟨part, ?_⟩
    rw [String.toList_ofList]
  | hash reach given => exact spelled_of_hash reach given
  | mustache reach opens invoked => exact spelled_of_mustache reach opens invoked
  | modifier reach opens invoked => exact spelled_of_modifier reach opens invoked
  | comment reach opens comment => exact spelled_of_mustacheComment reach opens comment
  | piece reach upTo =>
    exact (Input.passes_of_takeUntil upTo).spelled reach (.inl String.toList_ofList.symm)
  | unvalued | chain =>
    rintro range ⟨⟩
  | block reach body =>
    obtain ⟨part, passes⟩ := Input.exists_passes body.le
    exact passes.spelled reach trivial
  | link link => exact spelled_of_link link

/-! ## Positions -/

theorem Node.Spells.mapRange (move : ρ → σ) {node : Node ρ} {start : Nat} {part : List Char}
    (spells : node.Spells place start part) :
    (node.mapRange move).Spells (move ∘ place) start part := by
  obtain ⟨range, layer⟩ := node
  rw [mapRange_mk]
  cases layer with
  | blockCall call program inverse =>
    obtain ⟨opened, linked⟩ := spells
    constructor
    · refine opened.imp (fun ⟨begins, name, closing, called, closes⟩ => ?_) id
      refine ⟨begins, name, closing, ?_, closes⟩
      rw [layer_mapRange, pathSpelling?_map, called]
    · intro block held unplaced
      obtain ⟨origin, there, rfl⟩ := Option.map_eq_some_iff.mp held
      rw [range_mapRange, Option.map_eq_none_iff] at unplaced
      obtain ⟨next, begins, layer, placed⟩ := linked origin there unplaced
      refine ⟨next.mapRange move, begins, ?_, ?_⟩
      · rw [layer_mapRange, layer]
        rfl
      · rw [range_mapRange, placed]
        rfl
  | element tag selfClosing attributes modifiers comments params children =>
    obtain ⟨starts, ends⟩ := spells
    refine ⟨starts, ?_⟩
    split_ifs at ends ⊢
    · exact ⟨ends.1, List.map_eq_nil_iff.mpr ends.2⟩
    · exact ⟨ends.1, List.map_eq_nil_iff.mpr ends.2⟩
    · exact ends
  | attr name value =>
    rcases spells with ⟨same, unplaced⟩ | ⟨assigned, same, placed, text⟩
    · exact .inl ⟨same, by rw [range_mapRange, unplaced]; rfl⟩
    · refine .inr ⟨assigned, same, by rw [range_mapRange, placed]; rfl, fun string layer => ?_⟩
      exact text string ((layer_mapRange_eq_text move).mp layer)
  | _ => exact spells

theorem Node.Spelled.mapRange (move : ρ → σ) {node : Node ρ} (spelled : node.Spelled place chars) :
    (node.mapRange move).Spelled (move ∘ place) chars := by
  intro range placed
  rw [range_mapRange, Option.map_eq_some_iff] at placed
  obtain ⟨here, placed, rfl⟩ := placed
  obtain ⟨before, part, after, source, rfl, spells⟩ := spelled here placed
  exact ⟨before, part, after, source, rfl, spells.mapRange move⟩

/-- The text that is the value of an attribute is spelled as it is or, if it begins with a quote,
between quotes. -/
theorem Node.Spelled.value {parent node : Node ρ} {name string : String} {outer range : ρ}
    (spelled : parent.Spelled place chars)
    (around : parent.range = some outer) (attr : parent.layer = .attr name node)
    (layer : node.layer = .text string) (placed : node.range = some range) :
    ∃ part, Covers place chars part range ∧
      if part.head? = some '\'' ∨ part.head? = some '"' then Quoted part string.toList
      else part = string.toList := by
  obtain ⟨before, _, after, source, -, spells⟩ := spelled outer around
  simp only [Spells, attr] at spells
  rcases spells with ⟨-, unplaced⟩ | ⟨assigned, rfl, here, text⟩
  · rw [unplaced] at placed
    cases placed
  · rw [here] at placed
    cases placed
    refine ⟨assigned, ⟨before ++ (name.toList ++ ['=']), after, by rw [source]; simp, ?_⟩,
      text string layer⟩
    simp only [List.length_append, Nat.add_assoc]

/-- Every attribute is placed. -/
private theorem Origin.placed_of_attr {node : Node Span} {value : Node σ} {name : String}
    (move : Span → σ) (origin : Origin root node)
    (attr : (node.mapRange move).layer = .attr name value) :
    ∃ range, (node.mapRange move).range = some range := by
  refine Option.ne_none_iff_exists'.mp fun absent => ?_
  rw [Node.range_mapRange, Option.map_eq_none_iff] at absent
  rw [Node.layer_mapRange] at attr
  rcases origin.unplaced absent with layer | layer | ⟨next, -, layer⟩ <;>
  · rw [layer] at attr
    cases attr

/-- The tree of a template says what stands in its text: every placed node is spelled where it came
from, every text among statements or parts is made of the characters it came from, and so is every
attribute value that is a text, but for quotes around it. -/
structure Faithful (text : String) (tree : Node Range) : Prop where
  spelled {address : List Slot} {node : Node Range} (found : tree.at? address = some node) :
    node.Spelled (rangeOf (lineStarts text.toList)) text.toList
  running {address : List Slot} {slot : Slot} {index : Nat} {parent node : Node Range}
    {string : String} {range : Range} (found : tree.at? address = some parent)
    (held : parent.child? slot = some node)
    (listed : slot = .body index ∨ slot = .children index ∨ slot = .parts index)
    (layer : node.layer = .text string) (placed : node.range = some range) :
    Covers (rangeOf (lineStarts text.toList)) text.toList string.toList range
  valued {address : List Slot} {parent node : Node Range} {name string : String} {range : Range}
    (found : tree.at? address = some parent) (attr : parent.layer = .attr name node)
    (layer : node.layer = .text string) (placed : node.range = some range) :
    ∃ part, Covers (rangeOf (lineStarts text.toList)) text.toList part range ∧
      if part.head? = some '\'' ∨ part.head? = some '"' then Quoted part string.toList
      else part = string.toList

/-- The tree of every template is faithful to its text. -/
theorem parse_faithful {text : String} {tree : Node Range} (parsed : parse text = .ok tree) :
    Faithful text tree := by
  obtain ⟨spans, read, rfl⟩ := parse_eq_ok parsed
  refine ⟨?_, ?_, ?_⟩
  · intro address node found
    rw [Node.at?_mapRange, Option.map_eq_some_iff] at found
    obtain ⟨part, found, rfl⟩ := found
    exact (parseSpans_origin read found).spelled.mapRange _
  · intro address slot index parent node string range found held listed layer placed
    rw [Node.at?_mapRange, Option.map_eq_some_iff] at found
    obtain ⟨part, found, rfl⟩ := found
    have tiled := (parseSpans_origin read found).tiled.mapRange (rangeOf (lineStarts text.toList))
    exact tiled.covers held listed layer placed
  · intro address parent node name string range found attr layer placed
    rw [Node.at?_mapRange, Option.map_eq_some_iff] at found
    obtain ⟨part, found, rfl⟩ := found
    obtain ⟨span, around⟩ := (parseSpans_origin read found).placed_of_attr _ attr
    exact ((parseSpans_origin read found).spelled.mapRange _).value around attr layer placed

theorem faithful_of_closed_tags : ∃ tree,
    parse "<p a='b' c=d>{{e (f -1)}}</p >\x7b\x7b#g\x7d\x7d<i/>\x7b\x7b/g\x7d\x7d" = .ok tree ∧
      Faithful "<p a='b' c=d>{{e (f -1)}}</p >\x7b\x7b#g\x7d\x7d<i/>\x7b\x7b/g\x7d\x7d" tree := by
  have read : (parse "<p a='b' c=d>{{e (f -1)}}</p >\x7b\x7b#g\x7d\x7d<i/>\x7b\x7b/g\x7d\x7d").isOk =
      true := by
    decide +kernel
  cases parsed : parse "<p a='b' c=d>{{e (f -1)}}</p >\x7b\x7b#g\x7d\x7d<i/>\x7b\x7b/g\x7d\x7d" with
  | error fault =>
    rw [parsed] at read
    cases read
  | ok tree => exact ⟨tree, rfl, parse_faithful parsed⟩

end Template

end EmberAssist
