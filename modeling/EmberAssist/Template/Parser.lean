import EmberAssist.Template.Fault
import EmberAssist.Template.Lexeme
import EmberAssist.Template.Node
import EmberAssist.Text.Lines

/-! The grammar of templates, read by recursive descent. Every function takes the input at which its
construct begins and gives the construct with the input behind it, or the first fault. The number
they take first bounds the depth of the descent; `parseSpans` starts with one that suffices for the
length of the text. -/
namespace EmberAssist.Template

namespace Input

/-- A fault at the next character. -/
def fail {α : Type} (input : Input) (fault : Fault) : Except Failure α :=
  .error ⟨fault, input.offset⟩

/-- Reads a given text, which must come next. -/
def expect (token : List Char) (input : Input) : Except Failure Input :=
  match input.eat? token with
  | some behind => .ok behind
  | none => input.fail (.expected token)

end Input

/-- A node that spans the text from one place of reading to a later one. -/
def Node.between (start stop : Input) (layer : Layer (Node Span)) : Node Span :=
  .mk (some ⟨start.offset, stop.offset⟩) layer

/-- Elements that have neither content nor a closing tag. -/
def voidElements : List String :=
  ["area", "base", "br", "col", "embed", "hr", "img", "input", "link", "meta", "param", "source",
    "track", "wbr"]

/-- The name by which something is called, if it is a path. -/
def calleeName (callee : Node Span) : Option String :=
  match callee.layer with
  | .path spelling .. => some spelling
  | _ => none

/-- The named arguments of an invocation as one node, which spans them from the first to the last. -/
def hashOf (pairs : List (Node Span)) : Node Span :=
  let span :=
    match pairs.head?.bind Node.range, pairs.getLast?.bind Node.range with
    | some first, some last => some ⟨first.start, last.stop⟩
    | _, _ => none
  .mk span (.hash pairs)

/-- A word that is not a number: a keyword or a path. -/
def wordLayer {α : Type} (word : List Char) : Layer α :=
  let spelling := String.ofList word
  if spelling == "true" then .booleanLiteral true
  else if spelling == "false" then .booleanLiteral false
  else if spelling == "null" then .nullLiteral
  else if spelling == "undefined" then .undefinedLiteral
  else
    .path spelling ((Text.splitOn '.' word).map String.ofList) (Text.startsWith word ['@'])

/-- Running text (`text_node`). -/
def readText (start : Input) : Node Span × Input :=
  let (chars, behind) := start.takeText
  (.between start behind (.text (String.ofList chars)), behind)

/-- A comment between angle brackets, behind whose opener `opened` begins (`html_comment`). -/
def readComment (start opened : Input) : Except Failure (Node Span × Input) :=
  match opened.upTo (·.eat? ['-', '-', '>']) with
  | some (value, behind) =>
    .ok (.between start behind (.comment (String.ofList value)), behind)
  | none => start.fail .unterminatedComment

/-- A comment between braces, behind whose opener `opened` begins (`mustache_comment`). -/
def readMustacheComment (start : Input) (isLong : Bool) (opened : Input) :
    Except Failure (Node Span × Input) :=
  match opened.upTo (if isLong then Input.longCommentClose? else Input.eatClose?) with
  | some (value, behind) =>
    .ok (.between start behind (.mustacheComment (String.ofList value)), behind)
  | none => start.fail .unterminatedComment

/-- A string literal that begins at its opening quote (`string_literal`). -/
def readString (start : Input) (quote : Char) : Except Failure (Node Span × Input) :=
  match Input.stringTail? quote (start.offset + 1) (start.rest.drop 1) with
  | some (value, behind) =>
    .ok (.between start behind (.stringLiteral (String.ofList value) (String.ofList value)), behind)
  | none => start.fail .unterminatedString

/-- A number or a word. -/
def readWord (start : Input) : Except Failure (Node Span × Input) :=
  match start.number? with
  | some ((spelling, value), behind) =>
    .ok (.between start behind (.numberLiteral value (String.ofList spelling)), behind)
  | none =>
    match start.takeSome? Input.isPathChar with
    | some (word, behind) => .ok (.between start behind (wordLayer word), behind)
    | none => start.fail .expectedExpression

/-- The quote that comes next, if one does. -/
def quoteAhead (input : Input) : Option Char :=
  match input.rest with
  | c :: _ => if c = '\'' ∨ c = '"' then some c else none
  | [] => none

mutual

/-- An expression, after any blanks: a parenthesised invocation, a string, a number or a word. -/
def expression : Nat → Input → Except Failure (Node Span × Input)
  | 0, input => input.fail .nestedTooDeep
  | depth + 1, input =>
    let start := input.skipBlank
    match start.eat? ['('] with
    | some opened => do
      let (call, behind) ← call depth opened
      let closed ← behind.skipBlank.expect [')']
      return (.between start closed (.subExpression call), closed)
    | none =>
      match quoteAhead start with
      | some quote => readString start quote
      | none => readWord start

/-- What is called and its arguments, up to what ends the invocation. -/
def call : Nat → Input → Except Failure (Call (Node Span) × Input)
  | 0, input => input.fail .nestedTooDeep
  | depth + 1, input => do
    let (callee, behind) ← expression depth input
    let ((params, pairs), behind) ← arguments depth false behind
    return (⟨callee, params, hashOf pairs⟩, behind)

/-- Arguments, positional ones before named ones (the loop of `call`). -/
def arguments : Nat → Bool → Input →
    Except Failure ((List (Node Span) × List (Node Span)) × Input)
  | 0, _, input => input.fail .nestedTooDeep
  | depth + 1, afterNamed, input => do
    let start := input.skipBlank
    if start.atEnd then start.fail .unterminatedExpression
    else if start.seesCallEnd then return (([], []), start)
    else
      match start.argumentName? with
      | some (name, behind) =>
        let (value, behind) ← expression depth behind
        let pair := Node.between start behind (.hashPair (String.ofList name) value)
        let ((params, pairs), behind) ← arguments depth true behind
        return ((params, pair :: pairs), behind)
      | none =>
        if afterNamed then start.fail .positionalAfterNamed
        else
          let (param, behind) ← expression depth start
          let ((params, pairs), behind) ← arguments depth false behind
          return ((param :: params, pairs), behind)

end

/-- An invocation between braces, three of which ask for the value to be trusted (`mustache`). -/
def readMustache (depth : Nat) (start opened : Input) : Except Failure (Node Span × Input) := do
  let (trusting, inner) :=
    match opened.eat? ['{'] with
    | some third => (true, third)
    | none => (false, opened)
  let (call, behind) ← call depth inner.skipTilde
  let closed ← behind.skipTilde.expect (if trusting then '}' :: closeBraces else closeBraces)
  return (.between start closed (.mustache call trusting), closed)

/-- An invocation between braces inside a start tag (`modifier`). -/
def readModifier (depth : Nat) (start opened : Input) : Except Failure (Node Span × Input) := do
  let (call, behind) ← call depth opened.skipTilde
  let closed ← behind.skipTilde.expect closeBraces
  return (.between start closed (.modifier call), closed)

/-- The invocation in an opening or else tag, its block parameters and the end of the tag (the tag in
`block`). -/
def readBlockTag (depth : Nat) (inner : Input) :
    Except Failure ((Call (Node Span) × List String) × Input) := do
  let (call, behind) ← call depth inner
  let spaced := behind.skipBlank
  let (blockParams, behind) := spaced.blockParams?.getD ([], spaced)
  let closed ← behind.skipTilde.expect closeBraces
  return ((call, blockParams), closed)

/-- Pieces of a quoted attribute value and the closing quote. -/
def valuePieces (opening : Input) (quote : Char) : Nat → Input →
    Except Failure (List (Node Span) × Input)
  | 0, input => input.fail .nestedTooDeep
  | depth + 1, input => do
    let (chars, stop) := input.takeUntil (Input.endsPiece quote)
    let piece :=
      if chars.isEmpty then []
      else [Node.between input stop (.text (String.ofList chars))]
    if stop.atEnd then opening.fail .unterminatedAttributeValue
    else
      match stop.eat? [quote] with
      | some closed => return (piece, closed)
      | none =>
        let (mustache, behind) ← readMustache depth stop (stop.skipOptional openBraces)
        let (pieces, closed) ← valuePieces opening quote depth behind
        return (piece ++ mustache :: pieces, closed)

/-- Whether a piece of an attribute value is an invocation. -/
def isMustache (node : Node Span) : Bool :=
  match node.layer with
  | .mustache .. => true
  | _ => false

/-- The running text of a node. -/
def textOf (node : Node Span) : Option String :=
  match node.layer with
  | .text chars => some chars
  | _ => none

/-- A quoted attribute value: a text, or a concatenation if there are invocations in it. -/
def quotedValue (pieces : List (Node Span)) : Layer (Node Span) :=
  if pieces.any isMustache then .concat pieces
  else .text ((pieces.head?.bind textOf).getD "")

/-- The value of an attribute (`attribute_value`). -/
def readValue (depth : Nat) (start : Input) : Except Failure (Node Span × Input) :=
  match start.eat? openBraces with
  | some opened => readMustache depth start opened
  | none =>
    match quoteAhead start with
    | some quote => do
      let (pieces, closed) ← valuePieces start quote depth (start.skipOptional [quote])
      return (.between start closed (quotedValue pieces), closed)
    | none =>
      match start.takeSome? Input.isBareValueChar with
      | some (chars, behind) =>
        return (.between start behind (.text (String.ofList chars)), behind)
      | none => start.fail .expectedAttributeValue

/-- An attribute (`attribute`). One without a value has an empty text that came from nowhere. -/
def readAttribute (depth : Nat) (start : Input) : Except Failure (Node Span × Input) :=
  match start.takeSome? Input.isAttributeNameChar with
  | none => start.fail .expectedAttributeName
  | some (name, behind) =>
    match behind.eat? ['='] with
    | none =>
      return (.between start behind (.attr (String.ofList name) (.mk none (.text ""))), behind)
    | some equals => do
      let (value, behind) ← readValue depth equals
      return (.between start behind (.attr (String.ofList name) value), behind)

/-- What stands in a start tag behind its name. -/
structure TagContent where
  selfClosing : Bool
  attributes : List (Node Span)
  modifiers : List (Node Span)
  comments : List (Node Span)
  blockParams : Option (List String)

namespace TagContent

/-- The end of a start tag. -/
def ended (selfClosing : Bool) : TagContent := ⟨selfClosing, [], [], [], none⟩

/-- An attribute before other content. -/
def withAttribute (node : Node Span) (content : TagContent) : TagContent :=
  { content with attributes := node :: content.attributes }

/-- A modifier before other content. -/
def withModifier (node : Node Span) (content : TagContent) : TagContent :=
  { content with modifiers := node :: content.modifiers }

/-- A comment before other content. -/
def withComment (node : Node Span) (content : TagContent) : TagContent :=
  { content with comments := node :: content.comments }

/-- Block parameters before other content, which count only if no later ones do. -/
def withBlockParams (names : List String) (content : TagContent) : TagContent :=
  { content with blockParams := some (content.blockParams.getD names) }

end TagContent

/-- The content of a start tag and its end (the loop of `element`). -/
def tagContent (opening : Input) (tag : String) : Nat → Input →
    Except Failure (TagContent × Input)
  | 0, input => input.fail .nestedTooDeep
  | depth + 1, input =>
    let start := input.skipBlank
    if start.atEnd then opening.fail (.unclosedTag tag)
    else if let some closed := start.eat? ['/', '>'] then return (.ended true, closed)
    else if let some closed := start.eat? ['>'] then return (.ended false, closed)
    else if let some (isLong, opened) := start.commentOpen? then do
      let (node, behind) ← readMustacheComment start isLong opened
      let (content, closed) ← tagContent opening tag depth behind
      return (content.withComment node, closed)
    else if let some opened := start.eat? openBraces then do
      let (node, behind) ← readModifier depth start opened
      let (content, closed) ← tagContent opening tag depth behind
      return (content.withModifier node, closed)
    else if let some (names, behind) := start.blockParams? then do
      let (content, closed) ← tagContent opening tag depth behind
      return (content.withBlockParams names, closed)
    else do
      let (node, behind) ← readAttribute depth start
      let (content, closed) ← tagContent opening tag depth behind
      return (content.withAttribute node, closed)

/-- Whether the statements of a body end here: at a closing tag of either sort or at an else. -/
def Input.endsBody (input : Input) : Bool :=
  input.atEnd || input.sees ['<', '/'] || input.closeBlock?.isSome || input.eatElse?.isSome

/-- The closing tag of a block, which must repeat the name it was opened with (`close_block`). -/
def readBlockClose (opening : Input) (name : Option String) (input : Input) :
    Except Failure Input :=
  match input.closeBlock? with
  | none => opening.fail (.unclosedBlock name)
  | some (closed, behind) =>
    if name = some (String.ofList closed) then .ok behind
    else input.fail (.mismatchedBlock name (String.ofList closed))

/-- The closing tag of an element. -/
def readElementClose (opening : Input) (tag : List Char) (input : Input) :
    Except Failure Input :=
  match input.eat? ('<' :: '/' :: tag) with
  | none => opening.fail (.unclosedElement (String.ofList tag))
  | some behind => behind.skipBlank.expect ['>']

mutual

/-- Statements up to the end of a body. -/
def body : Nat → Input → Except Failure (List (Node Span) × Input)
  | 0, input => input.fail .nestedTooDeep
  | depth + 1, input => do
    if input.endsBody then return ([], input)
    else
      let (first, behind) ← statement depth input
      let (others, behind) ← body depth behind
      return (first :: others, behind)

/-- One statement: a comment, a block, an invocation, an element or running text. -/
def statement : Nat → Input → Except Failure (Node Span × Input)
  | 0, input => input.fail .nestedTooDeep
  | depth + 1, input =>
    if let some (isLong, opened) := input.commentOpen? then readMustacheComment input isLong opened
    else if let some opened := input.eat? openBraces then
      if input.seesBlockOpen then do
        let inner ← opened.skipTilde.expect ['#']
        let ((call, blockParams), tagEnd) ← readBlockTag depth inner
        blockTail depth input (calleeName call.callee) input call blockParams tagEnd
      else readMustache depth input opened
    else if let some opened := input.eat? ['<', '!', '-', '-'] then readComment input opened
    else if let some (tag, named) := (input.eat? ['<']).bind Input.tagName? then
      element depth input tag named
    else return readText input

/-- The rest of a block behind the tag that opened it or that continued it with another invocation: the
program, what else there is, and the closing tag (`block_tail`). The block spans the text from `start`;
the whole of it was opened at `opening` under `name`. -/
def blockTail : Nat → Input → Option String → Input → Call (Node Span) → List String → Input →
    Except Failure (Node Span × Input)
  | 0, _, _, _, _, _, input => input.fail .nestedTooDeep
  | depth + 1, opening, name, start, call, blockParams, input => do
    let (statements, stop) ← body depth input
    let program := Node.between input stop (.block statements blockParams)
    match stop.eatElse? with
    | none =>
      let closed ← readBlockClose opening name stop
      return (.between start closed (.blockCall call program none), closed)
    | some word =>
      let inner := word.skipBlank
      if inner.eatClose?.isSome then
        let inverseStart ← inner.skipTilde.expect closeBraces
        let (others, inverseStop) ← body depth inverseStart
        if inverseStop.eatElse?.isSome then inverseStop.fail .elseAfterElse
        else
          let inverse := Node.between inverseStart inverseStop (.block others [])
          let closed ← readBlockClose opening name inverseStop
          return (.between start closed (.blockCall call program (some inverse)), closed)
      else
        let ((nextCall, nextParams), tagEnd) ← readBlockTag depth inner
        let (next, closed) ← blockTail depth opening name stop nextCall nextParams tagEnd
        let inverse := Node.mk none (.block [next] [])
        return (.between start closed (.blockCall call program (some inverse)), closed)

/-- An element behind the name in its start tag. -/
def element : Nat → Input → List Char → Input → Except Failure (Node Span × Input)
  | 0, _, _, input => input.fail .nestedTooDeep
  | depth + 1, start, tag, named => do
    let name := String.ofList tag
    let (content, tagEnd) ← tagContent start name depth named
    let (children, closed) ←
      if content.selfClosing || voidElements.contains name then pure ([], tagEnd)
      else
        let (children, stop) ← body depth tagEnd
        let closed ← readElementClose start tag stop
        pure (children, closed)
    let layer := Layer.element name content.selfClosing content.attributes content.modifiers
      content.comments (content.blockParams.getD []) children
    return (.between start closed layer, closed)

end

/-- A depth that no descent into a text of some length exceeds. -/
def depthFor (length : Nat) : Nat := 8 * (length + 1)

/-- The tree of a template with the spans of offsets that its nodes came from. -/
def parseSpans (chars : List Char) : Except Failure (Node Span) := do
  let (statements, stop) ← body (depthFor chars.length) (.ofText chars)
  if stop.atEnd then return .between (.ofText chars) stop (.template statements [])
  else stop.fail .unexpectedClosing

/-- The tree of a template with the ranges of positions that its nodes came from, or the first fault
in the text (`GlimmerParser.parse`). Columns count characters. -/
def parse (text : String) : Except SyntaxError (Node Range) :=
  let chars := text.toList
  let starts := Text.lineStarts chars
  match parseSpans chars with
  | .ok tree => .ok (tree.mapRange (Text.rangeOf starts))
  | .error failure => .error ⟨failure.fault, Text.positionOf starts failure.offset⟩

end EmberAssist.Template
