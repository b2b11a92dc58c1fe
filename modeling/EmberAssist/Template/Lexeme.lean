import EmberAssist.Template.Input
import EmberAssist.Text.Blank
import EmberAssist.Text.DecimalDigit
import EmberAssist.Text.Search
import EmberAssist.Text.WordChar
import EmberAssist.Number.Double

/-! The lexemes of templates: the openers, closers, names and literals that the grammar is written
in. Each is read from the front of an input or not at all. -/
namespace EmberAssist.Template

open Text

/-- Two opening braces. -/
def openBraces : List Char := ['{', '{']

/-- Two closing braces. -/
def closeBraces : List Char := ['}', '}']

namespace Input

/-- Skips blanks (`skip_ws`). -/
def skipBlank (input : Input) : Input := input.skipWhile isBlank

/-- Skips blanks and then a tilde, which asks for blanks around the tag to be dropped (`skip_tilde`). -/
def skipTilde (input : Input) : Input := input.skipBlank.skipOptional ['~']

/-- Reads two closing braces with or without a tilde before them (`_MUSTACHE_CLOSE`). -/
def eatClose? (input : Input) : Option Input := (input.skipOptional ['~']).eat? closeBraces

/-- Reads two opening braces with or without a tilde behind them. -/
def eatOpen? (input : Input) : Option Input := (input.eat? openBraces).map (·.skipOptional ['~'])

/-- Reads the opener of a comment between braces, and whether it is the long one, which ends in two
dashes (`_COMMENT_OPEN`). -/
def commentOpen? (input : Input) : Option (Bool × Input) :=
  (input.eatOpen?.bind (·.eat? ['!'])).map fun behind =>
    match behind.eat? ['-', '-'] with
    | some dashes => (true, dashes)
    | none => (false, behind)

/-- Reads the closer of a long comment (`_LONG_COMMENT_CLOSE`). -/
def longCommentClose? (input : Input) : Option Input := (input.eat? ['-', '-']).bind eatClose?

/-- Whether the opener of a block comes next (`_BLOCK_OPEN`). -/
def seesBlockOpen (input : Input) : Bool := (input.eatOpen?.bind (·.eat? ['#'])).isSome

/-- A character of the name in a block's closing tag. -/
def isCloseNameChar (c : Char) : Bool := !isBlank c && c != '}' && c != '~'

/-- Reads a block's closing tag and gives the name in it (`_CLOSE_BLOCK`). -/
def closeBlock? (input : Input) : Option (List Char × Input) := do
  let opened ← input.eatOpen?
  let slash ← opened.eat? ['/']
  let (name, named) ← slash.skipBlank.takeSome? isCloseNameChar
  let closed ← named.skipBlank.eatClose?
  return (name, closed)

/-- A character that ends the word of an else tag. -/
def endsElse (c : Char) : Bool := isBlank c || c == '}' || c == '~'

/-- Reads the beginning of an else tag up to and with its word (`_ELSE`). -/
def eatElse? (input : Input) : Option Input := do
  let opened ← input.eatOpen?
  let word ← opened.skipBlank.eat? ['e', 'l', 's', 'e']
  match word.rest with
  | c :: _ => if endsElse c then some word else none
  | [] => none

/-- A character that can begin a tag's name. -/
def beginsTagName (c : Char) : Bool := c.isAlpha || c == '@' || c == ':'

/-- A character of a tag's name. -/
def isTagNameChar (c : Char) : Bool :=
  isWordChar c || c == '-' || c == '.' || c == ':' || c == '@'

/-- Reads the name of a tag (`_TAG_NAME`). -/
def tagName? (input : Input) : Option (List Char × Input) :=
  match input.rest with
  | c :: _ => if beginsTagName c then some (input.takeWhile isTagNameChar) else none
  | [] => none

/-- Whether running text ends before these characters: at braces, at a tag, at a closing tag or at a
comment (`_TEXT_END`). -/
def endsText : List Char → Bool
  | '{' :: '{' :: _ => true
  | '<' :: '!' :: '-' :: '-' :: _ => true
  | '<' :: c :: _ => beginsTagName c || c == '/'
  | _ => false

/-- Reads running text: one character whatever it is, and all up to the end of the text behind it. -/
def takeText (input : Input) : List Char × Input :=
  match input with
  | ⟨offset, []⟩ => ([], ⟨offset, []⟩)
  | ⟨offset, c :: rest⟩ =>
    let (chars, behind) := untilFrom endsText (offset + 1) rest
    (c :: chars, behind)

/-- A character of an attribute's name (`_ATTR_NAME`). -/
def isAttributeNameChar (c : Char) : Bool :=
  !isBlank c && !(['"', '\'', '<', '>', '/', '=', '{', '}'].contains c)

/-- A character of an attribute's value that stands without quotes (`_UNQUOTED_VALUE`). -/
def isBareValueChar (c : Char) : Bool := !isBlank c && c != '>'

/-- Whether a piece of a quoted attribute value ends here: at its quote or at braces. -/
def endsPiece (quote : Char) : List Char → Bool
  | '{' :: '{' :: _ => true
  | c :: _ => c == quote
  | [] => false

/-- A character of a path or of a name of a named argument (`_PATH`). -/
def isPathChar (c : Char) : Bool :=
  !isBlank c && !(['(', ')', '{', '}', '"', '\'', '=', '|', '~'].contains c)

/-- Reads the name of a named argument and the sign of equality behind it (`_HASH_KEY`). -/
def argumentName? (input : Input) : Option (List Char × Input) := do
  let (name, named) ← input.takeSome? isPathChar
  let equals ← named.eat? ['=']
  return (name, equals)

/-- Reads a list of block parameters (`block_params`). -/
def blockParams? (input : Input) : Option (List String × Input) := do
  let word ← input.eat? ['a', 's']
  let (_, spaced) ← word.takeSome? isBlank
  let opened ← spaced.eat? ['|']
  let (names, named) := opened.takeWhile (· != '|')
  let closed ← named.eat? ['|']
  return ((words names).map String.ofList, closed)

/-- Whether block parameters are about to begin, complete or not. -/
def seesBlockParams (input : Input) : Bool :=
  match input.eat? ['a', 's'] with
  | none => false
  | some word =>
    match word.takeSome? isBlank with
    | none => false
    | some (_, spaced) => spaced.sees ['|']

/-- Whether an invocation ends here: at its closer, at a closing parenthesis or at block
parameters (`_CALL_END`). -/
def seesCallEnd (input : Input) : Bool :=
  input.eatClose?.isSome || input.sees [')'] || input.seesBlockParams

/-- A character that may follow a number. -/
def endsNumber (c : Char) : Bool := isBlank c || c == ')' || c == '}' || c == '~'

/-- Reads the fraction of a number, or nothing. -/
def fraction (input : Input) : List Char × Input :=
  match (input.eat? ['.']).bind (·.takeSome? isDecimalDigit) with
  | some found => found
  | none => ([], input)

/-- Reads a number and gives its spelling and its value (`_NUMBER`). It must stand alone. -/
def number? (input : Input) : Option ((List Char × Double) × Input) := do
  let unsigned := input.skipOptional ['-']
  let (whole, wholeEnd) ← unsigned.takeSome? isDecimalDigit
  let (fractional, behind) := wholeEnd.fraction
  if behind.rest.head?.all endsNumber then
    let negative := input.sees ['-']
    let value := Double.ofDecimal negative (digitsValue (whole ++ fractional)) (-fractional.length)
    some ((input.rest.take (behind.offset - input.offset), value), behind)
  else none

/-- Reads the rest of a string literal at an offset: up to the closing quote, a backslash before a
quote standing for the quote (`string_literal`). -/
def stringTail? (quote : Char) : Nat → List Char → Option (List Char × Input)
  | _, [] => none
  | offset, [c] => if c = quote then some ([], ⟨offset + 1, []⟩) else none
  | offset, c :: d :: rest =>
    if c = '\\' ∧ d = quote then
      (stringTail? quote (offset + 2) rest).map fun (value, behind) => (quote :: value, behind)
    else if c = quote then some ([], ⟨offset + 1, d :: rest⟩)
    else (stringTail? quote (offset + 1) (d :: rest)).map fun (value, behind) => (c :: value, behind)

end Input

end EmberAssist.Template
