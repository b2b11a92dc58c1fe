import EmberAssist.Proofs.Template.Address
import EmberAssist.Proofs.Template.Progress

/-! The grammar of templates as a relation. `Reads` says which constructs can be read from an input,
one rule for each way in which the descent goes on. Facts about all templates are inductions over
`Reads`, long ones level by level. -/
namespace EmberAssist.Template

/-- The constructs of the grammar. A block's rest is told by the name that must close it and the
parameters of its program, an element by its tag. -/
inductive Production where
  | expression
  | call
  | arguments (afterNamed : Bool)
  | mustache
  | modifier
  | blockTag
  | pieces (quote : Char)
  | value
  | attr
  | tagContent
  | body
  | statement
  | blockTail (name : Option String) (blockParams : List String)
  | element (tag : List Char)

/-- The levels of the grammar, from invocations up to what stands between tags. -/
inductive Level where
  | invocation
  | braces
  | value
  | startTag
  | content

/-- The level of a construct, which is read by means of others of this level and of those before it. -/
def Production.level : Production → Level
  | .expression | .call | .arguments _ => .invocation
  | .mustache | .modifier | .blockTag => .braces
  | .pieces _ | .value | .attr => .value
  | .tagContent => .startTag
  | .body | .statement | .blockTail .. | .element _ => .content

/-- What reading a construct gives. -/
inductive Yield where
  | node (node : Node Span)
  | call (call : Call (Node Span))
  | arguments (params pairs : List (Node Span))
  | mustache (call : Call (Node Span)) (trusting : Bool)
  | blockTag (call : Call (Node Span)) (blockParams : List String)
  | list (nodes : List (Node Span))
  | content (content : TagContent)
  | blockTail (program : Node Span) (inverse : Option (Node Span))
  | element (content : TagContent) (children : List (Node Span))

/-- The nodes of a start tag, sort by sort. -/
def TagContent.nodes (content : TagContent) : List (Node Span) :=
  content.attributes ++ content.modifiers ++ content.comments

/-- The nodes that a construct hands on, in the order in which a layer made of them is visited. -/
@[simp] def Yield.nodes : Yield → List (Node Span)
  | .node single => [single]
  | .call found | .mustache found _ | .blockTag found _ => found.nodes
  | .arguments params pairs => params ++ pairs
  | .list several => several
  | .content found => found.nodes
  | .blockTail program inverse => program :: inverse.toList
  | .element found children => found.nodes ++ children

/-- The text before a place in a quoted attribute value, if there is any. -/
def textPiece (start stop : Input) (chars : List Char) : List (Node Span) :=
  if chars.isEmpty then [] else [Node.between start stop (.text (String.ofList chars))]

/-- Neither the text nor the start tag ends here. -/
def Input.StaysInTag (input : Input) : Prop :=
  input.atEnd = false ∧ input.eat? ['/', '>'] = none ∧ input.eat? ['>'] = none

/-- The arguments of an invocation go on here. -/
def Input.GoesOn (input : Input) : Prop := input.atEnd = false ∧ input.seesCallEnd = false

/-- An element made of its start tag and its content. -/
def elementLayer (tag : List Char) (content : TagContent) (children : List (Node Span)) :
    Layer (Node Span) :=
  .element (String.ofList tag) content.selfClosing content.attributes content.modifiers
    content.comments (content.blockParams.getD []) children

/-- An element of this tag has no content behind its start tag. -/
def isBare (tag : List Char) (content : TagContent) : Bool :=
  content.selfClosing || voidElements.contains (String.ofList tag)

/-- Within some depth, a construct is read from one input up to another. -/
inductive Reads : Nat → Production → Input → Yield → Input → Prop where
  | subExpression {call : Call (Node Span)}
      (opens : input.skipBlank.eat? ['('] = some opened)
      (invoked : Reads depth .call opened (.call call) behind)
      (closes : behind.skipBlank.eat? [')'] = some closed) :
      Reads (depth + 1) .expression input
        (.node (.between input.skipBlank closed (.subExpression call))) closed
  | string {quote : Char} {node : Node Span}
      (plain : input.skipBlank.eat? ['('] = none)
      (quoted : quoteAhead input.skipBlank = some quote)
      (read : readString input.skipBlank quote = .ok (node, closed)) :
      Reads (depth + 1) .expression input (.node node) closed
  | word {node : Node Span}
      (plain : input.skipBlank.eat? ['('] = none)
      (bare : quoteAhead input.skipBlank = none)
      (read : readWord input.skipBlank = .ok (node, closed)) :
      Reads (depth + 1) .expression input (.node node) closed
  | call {callee : Node Span} {params pairs : List (Node Span)}
      (called : Reads depth .expression input (.node callee) behind)
      (given : Reads depth (.arguments false) behind (.arguments params pairs) closed) :
      Reads (depth + 1) .call input (.call ⟨callee, params, hashOf pairs⟩) closed
  | noArguments {afterNamed : Bool}
      (more : input.skipBlank.atEnd = false) (ends : input.skipBlank.seesCallEnd = true) :
      Reads (depth + 1) (.arguments afterNamed) input (.arguments [] []) input.skipBlank
  | named {afterNamed : Bool} {name : List Char} {value : Node Span}
      {params pairs : List (Node Span)}
      (goesOn : input.skipBlank.GoesOn)
      (named : input.skipBlank.argumentName? = some (name, behind))
      (assigned : Reads depth .expression behind (.node value) next)
      (rest : Reads depth (.arguments true) next (.arguments params pairs) closed) :
      Reads (depth + 1) (.arguments afterNamed) input
        (.arguments params
          (.between input.skipBlank next (.hashPair (String.ofList name) value) :: pairs)) closed
  | positional {param : Node Span} {params pairs : List (Node Span)}
      (goesOn : input.skipBlank.GoesOn) (unnamed : input.skipBlank.argumentName? = none)
      (given : Reads depth .expression input.skipBlank (.node param) next)
      (rest : Reads depth (.arguments false) next (.arguments params pairs) closed) :
      Reads (depth + 1) (.arguments false) input (.arguments (param :: params) pairs) closed
  | trusting {call : Call (Node Span)}
      (third : input.eat? ['{'] = some within)
      (invoked : Reads depth .call within.skipTilde (.call call) behind)
      (closes : behind.skipTilde.eat? ('}' :: closeBraces) = some closed) :
      Reads depth .mustache input (.mustache call true) closed
  | mustache {call : Call (Node Span)}
      (plain : input.eat? ['{'] = none)
      (invoked : Reads depth .call input.skipTilde (.call call) behind)
      (closes : behind.skipTilde.eat? closeBraces = some closed) :
      Reads depth .mustache input (.mustache call false) closed
  | modifier {call : Call (Node Span)}
      (invoked : Reads depth .call input.skipTilde (.call call) behind)
      (closes : behind.skipTilde.eat? closeBraces = some closed) :
      Reads depth .modifier input (.call call) closed
  | blockTag {call : Call (Node Span)} {blockParams : List String}
      (invoked : Reads depth .call input (.call call) behind)
      (declared : behind.skipBlank.blockParams?.getD ([], behind.skipBlank) = (blockParams, next))
      (closes : next.skipTilde.eat? closeBraces = some closed) :
      Reads depth .blockTag input (.blockTag call blockParams) closed
  | lastPiece {quote : Char} {chars : List Char}
      (upTo : input.takeUntil (Input.endsPiece quote) = (chars, stop)) (more : stop.atEnd = false)
      (closes : stop.eat? [quote] = some closed) :
      Reads (depth + 1) (.pieces quote) input (.list (textPiece input stop chars)) closed
  | pieces {quote : Char} {chars : List Char} {call : Call (Node Span)} {trusting : Bool}
      {others : List (Node Span)}
      (upTo : input.takeUntil (Input.endsPiece quote) = (chars, stop)) (more : stop.atEnd = false)
      (open_ : stop.eat? [quote] = none)
      (invoked : Reads depth .mustache (stop.skipOptional openBraces) (.mustache call trusting)
        behind)
      (rest : Reads depth (.pieces quote) behind (.list others) closed) :
      Reads (depth + 1) (.pieces quote) input
        (.list (textPiece input stop chars ++ .between stop behind (.mustache call trusting) ::
          others)) closed
  | mustacheValue {call : Call (Node Span)} {trusting : Bool}
      (opens : input.eat? openBraces = some opened)
      (invoked : Reads depth .mustache opened (.mustache call trusting) closed) :
      Reads depth .value input (.node (.between input closed (.mustache call trusting))) closed
  | quotedValue {quote : Char} {pieces : List (Node Span)}
      (plain : input.eat? openBraces = none) (quoted : quoteAhead input = some quote)
      (inside : Reads depth (.pieces quote) (input.skipOptional [quote]) (.list pieces) closed) :
      Reads depth .value input (.node (.between input closed (quotedValue pieces))) closed
  | bareValue {chars : List Char}
      (plain : input.eat? openBraces = none) (bare : quoteAhead input = none)
      (taken : input.takeSome? Input.isBareValueChar = some (chars, closed)) :
      Reads depth .value input (.node (.between input closed (.text (String.ofList chars)))) closed
  | valueless {name : List Char}
      (named : input.takeSome? Input.isAttributeNameChar = some (name, closed))
      (ends : closed.eat? ['='] = none) :
      Reads depth .attr input
        (.node (.between input closed (.attr (String.ofList name) (.mk none (.text ""))))) closed
  | attr {name : List Char} {value : Node Span}
      (named : input.takeSome? Input.isAttributeNameChar = some (name, behind))
      (equals : behind.eat? ['='] = some next)
      (assigned : Reads depth .value next (.node value) closed) :
      Reads depth .attr input
        (.node (.between input closed (.attr (String.ofList name) value))) closed
  | selfClosed (more : input.skipBlank.atEnd = false)
      (closes : input.skipBlank.eat? ['/', '>'] = some closed) :
      Reads (depth + 1) .tagContent input (.content (.ended true)) closed
  | tagEnd (more : input.skipBlank.atEnd = false) (open_ : input.skipBlank.eat? ['/', '>'] = none)
      (closes : input.skipBlank.eat? ['>'] = some closed) :
      Reads (depth + 1) .tagContent input (.content (.ended false)) closed
  | tagComment {isLong : Bool} {node : Node Span} {content : TagContent}
      (stays : input.skipBlank.StaysInTag)
      (opens : input.skipBlank.commentOpen? = some (isLong, opened))
      (comment : readMustacheComment input.skipBlank isLong opened = .ok (node, behind))
      (rest : Reads depth .tagContent behind (.content content) closed) :
      Reads (depth + 1) .tagContent input (.content (content.withComment node)) closed
  | tagModifier {call : Call (Node Span)} {content : TagContent}
      (stays : input.skipBlank.StaysInTag) (plain : input.skipBlank.commentOpen? = none)
      (opens : input.skipBlank.eat? openBraces = some opened)
      (invoked : Reads depth .modifier opened (.call call) behind)
      (rest : Reads depth .tagContent behind (.content content) closed) :
      Reads (depth + 1) .tagContent input
        (.content (content.withModifier (.between input.skipBlank behind (.modifier call)))) closed
  | tagParams {names : List String} {content : TagContent}
      (stays : input.skipBlank.StaysInTag) (plain : input.skipBlank.commentOpen? = none)
      (bare : input.skipBlank.eat? openBraces = none)
      (declared : input.skipBlank.blockParams? = some (names, behind))
      (rest : Reads depth .tagContent behind (.content content) closed) :
      Reads (depth + 1) .tagContent input (.content (content.withBlockParams names)) closed
  | tagAttribute {node : Node Span} {content : TagContent}
      (stays : input.skipBlank.StaysInTag) (plain : input.skipBlank.commentOpen? = none)
      (bare : input.skipBlank.eat? openBraces = none)
      (undeclared : input.skipBlank.blockParams? = none)
      (taken : Reads depth .attr input.skipBlank (.node node) behind)
      (rest : Reads depth .tagContent behind (.content content) closed) :
      Reads (depth + 1) .tagContent input (.content (content.withAttribute node)) closed
  | noStatements (ends : input.endsBody = true) :
      Reads (depth + 1) .body input (.list []) input
  | statements {first : Node Span} {others : List (Node Span)}
      (goesOn : input.endsBody = false)
      (head : Reads depth .statement input (.node first) behind)
      (rest : Reads depth .body behind (.list others) closed) :
      Reads (depth + 1) .body input (.list (first :: others)) closed
  | mustacheComment {isLong : Bool} {node : Node Span}
      (opens : input.commentOpen? = some (isLong, opened))
      (comment : readMustacheComment input isLong opened = .ok (node, closed)) :
      Reads (depth + 1) .statement input (.node node) closed
  | block {call : Call (Node Span)} {blockParams : List String} {program : Node Span}
      {inverse : Option (Node Span)}
      (plain : input.commentOpen? = none) (opens : input.eat? openBraces = some opened)
      (block : input.seesBlockOpen = true) (hash : opened.skipTilde.eat? ['#'] = some within)
      (tag : Reads depth .blockTag within (.blockTag call blockParams) behind)
      (tail : Reads depth (.blockTail (calleeName call.callee) blockParams) behind
        (.blockTail program inverse) closed) :
      Reads (depth + 1) .statement input
        (.node (.between input closed (.blockCall call program inverse))) closed
  | mustacheStatement {call : Call (Node Span)} {trusting : Bool}
      (plain : input.commentOpen? = none) (opens : input.eat? openBraces = some opened)
      (single : input.seesBlockOpen = false)
      (invoked : Reads depth .mustache opened (.mustache call trusting) closed) :
      Reads (depth + 1) .statement input (.node (.between input closed (.mustache call trusting)))
        closed
  | comment {node : Node Span}
      (plain : input.commentOpen? = none) (bare : input.eat? openBraces = none)
      (opens : input.eat? ['<', '!', '-', '-'] = some opened)
      (comment : readComment input opened = .ok (node, closed)) :
      Reads (depth + 1) .statement input (.node node) closed
  | element {tag : List Char} {content : TagContent} {children : List (Node Span)}
      (plain : input.commentOpen? = none) (bare : input.eat? openBraces = none)
      (visible : input.eat? ['<', '!', '-', '-'] = none)
      (tagged : (input.eat? ['<']).bind Input.tagName? = some (tag, behind))
      (read : Reads depth (.element tag) behind (.element content children) closed) :
      Reads (depth + 1) .statement input
        (.node (.between input closed (elementLayer tag content children))) closed
  | text (plain : input.commentOpen? = none) (bare : input.eat? openBraces = none)
      (visible : input.eat? ['<', '!', '-', '-'] = none)
      (untagged : (input.eat? ['<']).bind Input.tagName? = none) :
      Reads (depth + 1) .statement input (.node (readText input).1) (readText input).2
  | blockEnd {name : Option String} {blockParams : List String} {statements : List (Node Span)}
      {closing : List Char}
      (body : Reads depth .body input (.list statements) stop)
      (noElse : stop.eatElse? = none) (closes : stop.closeBlock? = some (closing, closed))
      (same : name = some (String.ofList closing)) :
      Reads (depth + 1) (.blockTail name blockParams) input
        (.blockTail (.between input stop (.block statements blockParams)) none) closed
  | blockElse {name : Option String} {blockParams : List String}
      {statements others : List (Node Span)} {closing : List Char}
      (body : Reads depth .body input (.list statements) stop)
      (otherwise : stop.eatElse? = some opened) (last : opened.skipBlank.eatClose?.isSome = true)
      (ends : opened.skipBlank.skipTilde.eat? closeBraces = some within)
      (otherBody : Reads depth .body within (.list others) behind)
      (noElse : behind.eatElse? = none) (closes : behind.closeBlock? = some (closing, closed))
      (same : name = some (String.ofList closing)) :
      Reads (depth + 1) (.blockTail name blockParams) input
        (.blockTail (.between input stop (.block statements blockParams))
          (some (.between within behind (.block others [])))) closed
  | blockChain {name : Option String} {blockParams nextParams : List String}
      {statements : List (Node Span)} {call : Call (Node Span)} {program : Node Span}
      {inverse : Option (Node Span)}
      (body : Reads depth .body input (.list statements) stop)
      (otherwise : stop.eatElse? = some opened) (chained : opened.skipBlank.eatClose?.isSome = false)
      (tag : Reads depth .blockTag opened.skipBlank (.blockTag call nextParams) behind)
      (tail : Reads depth (.blockTail name nextParams) behind (.blockTail program inverse) closed) :
      Reads (depth + 1) (.blockTail name blockParams) input
        (.blockTail (.between input stop (.block statements blockParams))
          (some (.mk none (.block [.between stop closed (.blockCall call program inverse)] []))))
        closed
  | bareElement {tag : List Char} {content : TagContent}
      (startTag : Reads depth .tagContent input (.content content) closed)
      (bare : isBare tag content = true) :
      Reads (depth + 1) (.element tag) input (.element content []) closed
  | filledElement {tag : List Char} {content : TagContent} {children : List (Node Span)}
      (startTag : Reads depth .tagContent input (.content content) opened)
      (filled : isBare tag content = false)
      (inside : Reads depth .body opened (.list children) stop)
      (closes : stop.eat? ('<' :: '/' :: tag) = some behind)
      (ends : behind.skipBlank.eat? ['>'] = some closed) :
      Reads (depth + 1) (.element tag) input (.element content children) closed

variable {depth : Nat} {production : Production} {yield : Yield}
variable {input opened inner behind next stop closed : Input}

/-! ## Leaves -/

section Leaves
variable {node : Node Span} {quote : Char} {isLong : Bool}

/-- A leaf is made of what could be read, up to the input that is left. -/
private theorem leaf_eq_ok {α : Type} {result : Except Failure (Node Span × Input)}
    (read : Option (α × Input)) (make : α → Input → Node Span)
    (made : ∀ value behind, read = some (value, behind) → result = .ok (make value behind, behind))
    (unread : read = none → ∃ failure, result = .error failure) :
    result = .ok (node, closed) ↔
      ∃ value, read = some (value, closed) ∧ node = make value closed := by
  cases read with
  | none =>
    obtain ⟨failure, failed⟩ := unread rfl
    simp [failed]
  | some found =>
    obtain ⟨value, behind⟩ := found
    simp only [made value behind rfl, Except.ok.injEq, Prod.mk.injEq, Option.some.injEq]
    constructor
    · rintro ⟨rfl, rfl⟩
      exact ⟨value, ⟨rfl, rfl⟩, rfl⟩
    · rintro ⟨_, ⟨rfl, rfl⟩, rfl⟩
      exact ⟨rfl, rfl⟩

theorem readString_eq_ok : readString input quote = .ok (node, closed) ↔
    ∃ value, Input.stringTail? quote (input.offset + 1) (input.rest.drop 1) = some (value, closed) ∧
      node = .between input closed (.stringLiteral (String.ofList value) (String.ofList value)) := by
  refine leaf_eq_ok _ (fun value behind =>
    .between input behind (.stringLiteral (String.ofList value) (String.ofList value)))
    ?_ ?_
  · intro value behind read
    rw [readString, read]
  · intro unread
    exact ⟨_, by rw [readString, unread, Input.fail]⟩

/-- A word is a number, or else a run of the characters of paths. -/
theorem readWord_eq_ok : readWord input = .ok (node, closed) ↔
    (∃ number, input.number? = some (number, closed) ∧
      node = .between input closed (.numberLiteral number.2 (String.ofList number.1))) ∨
    (input.number? = none ∧ ∃ word, input.takeSome? Input.isPathChar = some (word, closed) ∧
      node = .between input closed (wordLayer word)) := by
  cases counted : input.number? with
  | none =>
    simp only [reduceCtorEq, false_and, exists_false, false_or, true_and]
    refine leaf_eq_ok _ (fun word behind => .between input behind (wordLayer word))
      ?_ ?_
    · intro word behind taken
      simp only [readWord, counted, taken]
    · intro untaken
      exact ⟨_, by simp only [readWord, counted, untaken, Input.fail]; rfl⟩
  | some found =>
    obtain ⟨⟨spelling, value⟩, behind⟩ := found
    simp only [readWord, counted, Except.ok.injEq, Prod.mk.injEq, Option.some.injEq, reduceCtorEq,
      false_and, or_false]
    constructor
    · rintro ⟨rfl, rfl⟩
      exact ⟨_, ⟨rfl, rfl⟩, rfl⟩
    · rintro ⟨_, ⟨rfl, rfl⟩, rfl⟩
      exact ⟨rfl, rfl⟩

theorem readComment_eq_ok : readComment input opened = .ok (node, closed) ↔
    ∃ value, opened.upTo (·.eat? ['-', '-', '>']) = some (value, closed) ∧
      node = .between input closed (.comment (String.ofList value)) := by
  refine leaf_eq_ok _ (fun value behind => .between input behind (.comment (String.ofList value)))
    ?_ ?_
  · intro value behind read
    rw [readComment, read]
  · intro unread
    exact ⟨_, by rw [readComment, unread, Input.fail]⟩

/-- What ends a comment between braces. -/
def commentCloser (isLong : Bool) : Input → Option Input :=
  if isLong then Input.longCommentClose? else Input.eatClose?

theorem readMustacheComment_eq_ok : readMustacheComment input isLong opened = .ok (node, closed) ↔
    ∃ value, opened.upTo (commentCloser isLong) = some (value, closed) ∧
      node = .between input closed (.mustacheComment (String.ofList value)) := by
  unfold commentCloser
  refine leaf_eq_ok _
    (fun value behind => .between input behind (.mustacheComment (String.ofList value)))
    ?_ ?_
  · intro value behind read
    rw [readMustacheComment, read]
  · intro unread
    exact ⟨_, by rw [readMustacheComment, unread, Input.fail]⟩

theorem lt_of_readString (quoted : quoteAhead input = some quote)
    (read : readString input quote = .ok (node, closed)) : input < closed := by
  obtain ⟨value, read, -⟩ := readString_eq_ok.mp read
  obtain ⟨offset, rest⟩ := input
  cases rest with
  | nil => cases quoted
  | cons c rest =>
    have first : (⟨offset, c :: rest⟩ : Input) < ⟨offset + 1, rest⟩ :=
      Input.lt_iff.mpr ⟨⟨[c], rfl, rfl⟩, Nat.lt_succ_self offset⟩
    exact first.trans_le (Input.le_of_stringTail? read)

theorem lt_of_readWord (read : readWord input = .ok (node, closed)) : input < closed := by
  rcases readWord_eq_ok.mp read with ⟨number, read, -⟩ | ⟨-, word, taken, -⟩
  · exact Input.lt_of_number? read
  · exact Input.lt_of_takeSome? taken

theorem le_of_readComment (read : readComment input opened = .ok (node, closed)) :
    opened ≤ closed := by
  obtain ⟨value, read, -⟩ := readComment_eq_ok.mp read
  exact Input.le_of_upTo (fun _ _ => Input.le_of_eat?) read

theorem le_of_commentCloser (read : commentCloser isLong input = some behind) : input ≤ behind := by
  unfold commentCloser at read
  split at read
  · exact Input.le_of_longCommentClose? read
  · exact Input.le_of_eatClose? read

theorem le_of_readMustacheComment
    (read : readMustacheComment input isLong opened = .ok (node, closed)) : opened ≤ closed := by
  obtain ⟨value, read, -⟩ := readMustacheComment_eq_ok.mp read
  exact Input.le_of_upTo (fun _ _ => le_of_commentCloser) read

/-- A word, a literal, a text or a comment: what is made of characters and has no parts. -/
def Layer.IsToken {α : Type} : Layer α → Prop
  | .path .. | .stringLiteral .. | .numberLiteral .. | .booleanLiteral _ | .nullLiteral
  | .undefinedLiteral | .text _ | .comment _ | .mustacheComment _ => True
  | _ => False

theorem Layer.IsToken.slots {α : Type} {layer : Layer α} (token : layer.IsToken) :
    layer.slots = [] := by
  cases layer <;> first | rfl | cases token

theorem Layer.IsToken.children {α : Type} {layer : Layer α} (token : layer.IsToken) :
    layer.children = [] := by
  rw [Layer.children, token.slots, List.map_nil]

theorem isToken_of_readString (read : readString input quote = .ok (node, closed)) :
    node.layer.IsToken := by
  obtain ⟨value, -, rfl⟩ := readString_eq_ok.mp read
  trivial

theorem isToken_of_readWord (read : readWord input = .ok (node, closed)) : node.layer.IsToken := by
  rcases readWord_eq_ok.mp read with ⟨number, -, rfl⟩ | ⟨-, word, -, rfl⟩
  · trivial
  · simp only [Node.between, Node.layer, wordLayer]
    split_ifs <;> trivial

theorem isToken_of_readComment (read : readComment input opened = .ok (node, closed)) :
    node.layer.IsToken := by
  obtain ⟨value, -, rfl⟩ := readComment_eq_ok.mp read
  trivial

theorem isToken_of_readMustacheComment
    (read : readMustacheComment input isLong opened = .ok (node, closed)) : node.layer.IsToken := by
  obtain ⟨value, -, rfl⟩ := readMustacheComment_eq_ok.mp read
  trivial

end Leaves

/-- What a tag declares is read behind its invocation. -/
theorem Input.le_of_declared {names : List String}
    (declared : input.blockParams?.getD ([], input) = (names, behind)) : input ≤ behind := by
  cases read : input.blockParams? with
  | none =>
    rw [read] at declared
    cases declared
    exact le_refl _
  | some found =>
    rw [read] at declared
    cases declared
    exact le_of_blockParams? read

/-- The grammar reads forward. -/
theorem Reads.le (reads : Reads depth production input yield closed) : input ≤ closed := by
  induction reads with
  | subExpression opens _ closes ih =>
    exact (Input.le_skipBlank _).trans ((Input.le_of_eat? opens).trans (ih.trans
      ((Input.le_skipBlank _).trans (Input.le_of_eat? closes))))
  | string plain quoted read => exact (Input.le_skipBlank _).trans (lt_of_readString quoted read).le
  | word plain bare read => exact (Input.le_skipBlank _).trans (lt_of_readWord read).le
  | call _ _ calledIH givenIH => exact calledIH.trans givenIH
  | noArguments => exact Input.le_skipBlank _
  | named _ named _ _ assignedIH restIH =>
    exact (Input.le_skipBlank _).trans ((Input.le_of_argumentName? named).trans
      (assignedIH.trans restIH))
  | positional _ _ _ _ givenIH restIH => exact (Input.le_skipBlank _).trans (givenIH.trans restIH)
  | trusting third _ closes ih =>
    exact (Input.le_of_eat? third).trans ((Input.le_skipTilde _).trans (ih.trans
      ((Input.le_skipTilde _).trans (Input.le_of_eat? closes))))
  | mustache _ _ closes ih | modifier _ closes ih =>
    exact (Input.le_skipTilde _).trans (ih.trans
      ((Input.le_skipTilde _).trans (Input.le_of_eat? closes)))
  | blockTag _ declared closes ih =>
    exact ih.trans ((Input.le_skipBlank _).trans ((Input.le_of_declared declared).trans
      ((Input.le_skipTilde _).trans (Input.le_of_eat? closes))))
  | lastPiece upTo _ closes =>
    exact (Input.le_of_takeUntil upTo).trans (Input.le_of_eat? closes)
  | pieces upTo _ _ _ _ invokedIH restIH =>
    exact (Input.le_of_takeUntil upTo).trans ((Input.le_skipOptional _ _).trans
      (invokedIH.trans restIH))
  | mustacheValue opens _ ih => exact (Input.le_of_eat? opens).trans ih
  | quotedValue _ _ _ ih => exact (Input.le_skipOptional _ _).trans ih
  | bareValue _ _ taken => exact Input.le_of_takeSome? taken
  | valueless named _ => exact Input.le_of_takeSome? named
  | attr named equals _ ih =>
    exact (Input.le_of_takeSome? named).trans ((Input.le_of_eat? equals).trans ih)
  | selfClosed _ closes => exact (Input.le_skipBlank _).trans (Input.le_of_eat? closes)
  | tagEnd _ _ closes => exact (Input.le_skipBlank _).trans (Input.le_of_eat? closes)
  | tagComment _ opens comment _ ih =>
    exact (Input.le_skipBlank _).trans ((Input.le_of_commentOpen? opens).trans
      ((le_of_readMustacheComment comment).trans ih))
  | tagModifier _ _ opens _ _ invokedIH restIH =>
    exact (Input.le_skipBlank _).trans ((Input.le_of_eat? opens).trans (invokedIH.trans restIH))
  | tagParams _ _ _ declared _ ih =>
    exact (Input.le_skipBlank _).trans ((Input.le_of_blockParams? declared).trans ih)
  | tagAttribute _ _ _ _ _ _ takenIH restIH =>
    exact (Input.le_skipBlank _).trans (takenIH.trans restIH)
  | noStatements => exact le_refl _
  | statements _ _ _ headIH restIH => exact headIH.trans restIH
  | mustacheComment opens comment =>
    exact (Input.le_of_commentOpen? opens).trans (le_of_readMustacheComment comment)
  | block _ opens _ hash _ _ tagIH tailIH =>
    exact (Input.le_of_eat? opens).trans ((Input.le_skipTilde _).trans
      ((Input.le_of_eat? hash).trans (tagIH.trans tailIH)))
  | mustacheStatement _ opens _ _ ih => exact (Input.le_of_eat? opens).trans ih
  | comment _ _ opens comment => exact (Input.le_of_eat? opens).trans (le_of_readComment comment)
  | element _ _ _ tagged _ ih =>
    obtain ⟨opened, opens, named⟩ := Option.bind_eq_some_iff.mp tagged
    exact (Input.le_of_eat? opens).trans ((Input.le_of_tagName? named).trans ih)
  | text => exact Input.le_takeText _
  | blockEnd _ _ closes _ ih => exact ih.trans (Input.le_of_closeBlock? closes)
  | blockElse _ otherwise _ ends _ _ closes _ bodyIH otherIH =>
    exact bodyIH.trans ((Input.le_of_eatElse? otherwise).trans ((Input.le_skipBlank _).trans
      ((Input.le_skipTilde _).trans ((Input.le_of_eat? ends).trans
        (otherIH.trans (Input.le_of_closeBlock? closes))))))
  | blockChain _ otherwise _ _ _ bodyIH tagIH tailIH =>
    exact bodyIH.trans ((Input.le_of_eatElse? otherwise).trans ((Input.le_skipBlank _).trans
      (tagIH.trans tailIH)))
  | bareElement _ _ ih => exact ih
  | filledElement _ _ _ closes ends startIH insideIH =>
    exact startIH.trans (insideIH.trans ((Input.le_of_eat? closes).trans
      ((Input.le_skipBlank _).trans (Input.le_of_eat? ends))))

end EmberAssist.Template
