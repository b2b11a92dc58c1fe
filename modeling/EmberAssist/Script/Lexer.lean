import EmberAssist.Document.Language
import EmberAssist.Script.Token

/-! Cutting a script into tokens. What a slash, a brace or an angle bracket means depends on what
stands before it: whether an operand or an operator comes next, and whether a brace would open a
block or an object. -/
namespace EmberAssist.Script

/-- Where the next character stands. -/
inductive Context where
  /-- Code inside a bracket. `questions` counts the question marks that wait for a colon, `inCase`
  says that a case waits for its colon, and `condition` that the bracket holds the condition of a
  statement. -/
  | code (bracket : Bracket) (questions : Nat) (inCase condition : Bool)
  /-- The text of a template. -/
  | template
  /-- An element's tag. -/
  | tag (closing : Bool)
  /-- What stands between an element's tags. -/
  | content

/-- What has been read. -/
structure LexState where
  offset : Nat
  contexts : List Context
  /-- An operand comes next, so that a slash begins a regular expression. -/
  operandNext : Bool
  /-- A brace that comes next opens a block. -/
  blockNext : Bool
  /-- The name or the arrow read last, unless it is the name of a property. -/
  lastName : List Char
  /-- The token read last is a point before a property. -/
  afterPoint : Bool

/-- Nothing has been read. -/
def LexState.initial : LexState := ⟨0, [], true, true, [], false⟩

/-- Names that an operand follows. -/
def operandNames : List (List Char) :=
  ["return", "typeof", "case", "in", "instanceof", "new", "void", "delete", "throw", "yield",
    "await", "else", "do", "default", "extends"].map String.toList

/-- Names that a block follows. -/
def blockNames : List (List Char) := ["else", "do", "try", "finally"].map String.toList

/-- Names that an object follows: those that an operand follows and those before lists of names in
braces. -/
def objectNames : List (List Char) :=
  ["return", "typeof", "case", "in", "instanceof", "new", "void", "delete", "throw", "yield",
    "await", "default", "of", "export", "import", "const", "let", "var"].map String.toList

/-- Names of statements with a condition in parentheses. -/
def conditionNames : List (List Char) := ["if", "while", "for", "with"].map String.toList

/-- What comes next behind an operand. -/
def LexState.behindOperand (state : LexState) : LexState :=
  { state with operandNext := false, blockNext := true, lastName := [], afterPoint := false }

/-- What comes next behind an operator or an opening bracket. -/
def LexState.behindOperator (state : LexState) : LexState :=
  { state with operandNext := true, blockNext := false, lastName := [], afterPoint := false }

/-- What comes next where a statement can begin. -/
def LexState.atStatement (state : LexState) : LexState :=
  { state with operandNext := true, blockNext := true, lastName := [], afterPoint := false }

/-- What comes next behind a name. -/
def LexState.behindName (state : LexState) (name : List Char) : LexState :=
  if state.afterPoint then state.behindOperand
  else
    let contexts :=
      match state.contexts with
      | .code .block questions inCase condition :: others =>
        .code .block questions
          (inCase || name == "case".toList || name == "default".toList) condition :: others
      | [] =>
        if name == "case".toList || name == "default".toList then [.code .block 0 true false]
        else []
      | contexts => contexts
    { state with
      operandNext := operandNames.contains name
      blockNext := blockNames.contains name || !objectNames.contains name
      lastName := name
      contexts }

/-- What comes next behind a colon: an operand in an object, a choice or an annotation, and a
statement behind a case or a label. -/
def LexState.behindColon (state : LexState) : LexState :=
  match state.contexts with
  | .code bracket (questions + 1) inCase condition :: others =>
    { state.behindOperator with contexts := .code bracket questions inCase condition :: others }
  | .code .block 0 _ condition :: others =>
    { state.atStatement with contexts := .code .block 0 false condition :: others }
  | [] => state.atStatement
  | _ => state.behindOperator

/-- What comes next behind a question mark. -/
def LexState.behindQuestion (state : LexState) : LexState :=
  match state.contexts with
  | .code bracket questions inCase condition :: others =>
    { state.behindOperator with
      contexts := .code bracket (questions + 1) inCase condition :: others }
  | [] => { state.behindOperator with contexts := [.code .block 1 false false] }
  | _ => state.behindOperator

/-- What comes next behind a mark that is no bracket. -/
def LexState.behindMark (language : Language) (state : LexState) (text : List Char) : LexState :=
  if text == [';'] then state.atStatement
  else if text == [':'] then state.behindColon
  else if text == ['?'] then state.behindQuestion
  else if text == ['=', '>'] then { state.atStatement with lastName := text }
  else if text == ['+', '+'] || text == ['-', '-'] then
    { state with blockNext := !state.operandNext, lastName := [], afterPoint := false }
  else if text == ['!'] && language = .typescript && !state.operandNext then state
  else if text == ['>'] && language = .typescript then state.atStatement
  else if text == ['.'] || text == ['?', '.'] then
    { state.behindOperator with afterPoint := true }
  else state.behindOperator

/-- The state behind some characters. -/
def LexState.advance (state : LexState) (taken : List Char) : LexState :=
  { state with offset := state.offset + Text.utf8Length taken }

/-- The state inside a bracket that has been opened. -/
def LexState.enter (state : LexState) (context : Context) : LexState :=
  { state with contexts := context :: state.contexts }

/-- The state outside the innermost bracket. -/
def LexState.leave (state : LexState) : LexState :=
  { state with contexts := state.contexts.drop 1 }

/-- A step of reading: the token, the state behind it, and the characters that are left. -/
abbrev LexStep := Option Token × LexState × List Char

/-- A step that reads a leaf. -/
def leafStep (kind : LeafKind) (state : LexState) (taken rest : List Char)
    (behind : LexState → LexState) : LexStep :=
  (some (.leaf kind state.offset taken), behind (state.advance taken), rest)

/-- A step that opens a bracket. -/
def openStep (bracket : Bracket) (state : LexState) (taken rest : List Char) (context : Context)
    (behind : LexState → LexState) : LexStep :=
  (some (.opening bracket state.offset taken), (behind (state.advance taken)).enter context, rest)

/-- A step that closes a bracket. -/
def closeStep (state : LexState) (taken rest : List Char) (behind : LexState → LexState) :
    LexStep :=
  (some (.closing state.offset taken), behind (state.advance taken).leave, rest)

/-- Whether an angle bracket before these characters opens an element. -/
def beginsElement (language : Language) (state : LexState) (rest : List Char) : Bool :=
  language = .javascript && state.operandNext &&
    match rest with
    | c :: _ => beginsName c || c == '>'
    | [] => false

/-- Reads on in code at a character that is neither space nor part of a comment. -/
def codeStep (language : Language) (state : LexState) (c : Char) (rest : List Char) : LexStep :=
  let chars := c :: rest
  let point :=
    c == '.' &&
      match rest with
      | d :: _ => d.isDigit
      | [] => false
  if c == '"' || c == '\'' then
    let (taken, rest) := stringTail c rest
    leafStep .string state (c :: taken) rest (·.behindOperand)
  else if c == '\x60' then
    openStep .template state [c] rest .template (·.behindOperator)
  else if c.isDigit || point then
    let (taken, rest) := number chars
    leafStep .number state taken rest (·.behindOperand)
  else if beginsName c then
    let (taken, rest) := run isNameChar chars
    leafStep .name state taken rest (·.behindName taken)
  else if c == '/' && state.operandNext then
    let (body, rest) := regexTail false rest
    let (flags, rest) := run Char.isAlpha rest
    leafStep .regex state (c :: body ++ flags) rest (·.behindOperand)
  else if c == '<' && beginsElement language state rest then
    openStep .element state [c] rest (.tag false) id
  else if c == '(' then
    let condition := conditionNames.contains state.lastName
    openStep .paren state [c] rest (.code .paren 0 false condition) (·.behindOperator)
  else if c == '[' then
    openStep .square state [c] rest (.code .square 0 false false) (·.behindOperator)
  else if c == '{' then
    if state.blockNext then
      let beginsStatement := state.operandNext && state.lastName != ['=', '>']
      openStep (if beginsStatement then .statement else .block) state [c] rest
        (.code .block 0 false false) (·.atStatement)
    else openStep .object state [c] rest (.code .object 0 false false) (·.behindOperator)
  else
    match c, state.contexts with
    | ')', .code .paren _ _ condition :: _ =>
      closeStep state [c] rest fun state =>
        { state.behindOperand with operandNext := condition }
    | ']', .code .square .. :: _ => closeStep state [c] rest (·.behindOperand)
    | '}', .code .block .. :: _ => closeStep state [c] rest (·.atStatement)
    | '}', .code .object .. :: _ => closeStep state [c] rest (·.behindOperand)
    | '}', .code .substitution .. :: _ => closeStep state [c] rest (·.behindOperand)
    | _, _ =>
      let (taken, rest) := mark chars
      leafStep .mark state taken rest (·.behindMark language taken)

/-- Reads on inside a template. -/
def templateStep (state : LexState) (c : Char) (rest : List Char) : LexStep :=
  if c == '\x60' then closeStep state [c] rest (·.behindOperand)
  else
    match c :: rest with
    | '$' :: '{' :: rest =>
      openStep .substitution state ['$', '{'] rest (.code .substitution 0 false false)
        (·.behindOperator)
    | chars =>
      let (taken, rest) := templateText chars
      leafStep .text state taken rest id

/-- Reads on inside an element's tag. -/
def tagStep (closing : Bool) (state : LexState) (c : Char) (rest : List Char) : LexStep :=
  if c == '"' || c == '\'' then
    let (taken, rest) := through [c] rest
    leafStep .string state (c :: taken) rest id
  else if c == '{' then
    openStep .substitution state [c] rest (.code .substitution 0 false false) (·.behindOperator)
  else if c == '<' then openStep .element state [c] rest (.tag false) id
  else if c == '>' then
    if closing then closeStep state [c] rest (·.behindOperand)
    else leafStep .mark state [c] rest fun state => state.leave.enter .content
  else if c == '/' && rest.head? == some '>' then
    closeStep state [c, '>'] (rest.drop 1) (·.behindOperand)
  else if isNameChar c then
    let (taken, rest) := run (fun c => isNameChar c || c == '-') (c :: rest)
    leafStep .name state taken rest id
  else leafStep .mark state [c] rest id

/-- Reads on between an element's tags. -/
def contentStep (state : LexState) (c : Char) (rest : List Char) : LexStep :=
  if c == '{' then
    openStep .substitution state [c] rest (.code .substitution 0 false false) (·.behindOperator)
  else if c == '<' then
    if rest.head? == some '/' then
      leafStep .mark state [c, '/'] (rest.drop 1) fun state => state.leave.enter (.tag true)
    else openStep .element state [c] rest (.tag false) id
  else
    let (taken, rest) := run (fun c => c != '{' && c != '<') (c :: rest)
    leafStep .text state taken rest id

/-- Skips a space, or reads a comment, or reads on in code or in a tag. A line end behind the word
that ends a function ends its statement as well. -/
def spacedStep (state : LexState) (chars : List Char) (next : Char → List Char → LexStep) :
    LexStep :=
  match chars with
  | '/' :: '/' :: rest =>
    let (taken, rest) := run (!endsLine ·) rest
    leafStep .comment state ('/' :: '/' :: taken) rest id
  | '/' :: '*' :: rest =>
    let (taken, rest) := through ['*', '/'] rest
    leafStep .comment state ('/' :: '*' :: taken) rest id
  | c :: rest =>
    if isSpace c then
      let state := state.advance [c]
      let state :=
        if endsLine c && state.lastName == "return".toList then { state with blockNext := true }
        else state
      (none, state, rest)
    else next c rest
  | [] => (none, state, [])

/-- Reads on wherever the next character stands. -/
def lexStep (language : Language) (state : LexState) (chars : List Char) : LexStep :=
  match state.contexts, chars with
  | .template :: _, c :: rest => templateStep state c rest
  | .content :: _, c :: rest => contentStep state c rest
  | .tag closing :: _, chars => spacedStep state chars (tagStep closing state)
  | _, chars => spacedStep state chars (codeStep language state)

/-- The tokens of a text, read in at most so many steps. -/
def tokensWithin (language : Language) : Nat → LexState → List Char → List Token
  | 0, _, _ => []
  | _ + 1, _, [] => []
  | steps + 1, state, chars =>
    let (token, state, rest) := lexStep language state chars
    token.toList ++ tokensWithin language steps state rest

/-- The tokens of a script. Every step reads a character at least. A first line that names an
interpreter is a comment. -/
def tokens (language : Language) (source : List Char) : List Token :=
  match source with
  | '#' :: '!' :: rest =>
    let (line, rest) := run (!endsLine ·) rest
    let taken := '#' :: '!' :: line
    .leaf .comment 0 taken ::
      tokensWithin language (rest.length + 1) (LexState.initial.advance taken) rest
  | source => tokensWithin language (source.length + 1) .initial source

end EmberAssist.Script
