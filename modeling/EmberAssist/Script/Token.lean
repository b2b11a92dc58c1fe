import EmberAssist.Script.Node

/-! Tokens of scripts. Brackets of every sort open and close; the text between them is cut into
names, numbers, strings, regular expressions, comments, marks and running text. -/
namespace EmberAssist.Script

/-- What a pair of brackets holds. A brace opens an object, a block, or the code in a template or an
element; where a statement can begin, only what it holds tells an object from a block. A template and
an element are brackets around their pieces. -/
inductive Bracket where
  | paren
  | square
  | object
  | block
  | statement
  | template
  | substitution
  | element
deriving DecidableEq, Repr

/-- The branch that a pair of brackets makes. -/
def Bracket.branchKind : Bracket → BranchKind
  | paren => .parenthesized
  | square => .array
  | object => .object
  | block => .block
  | statement => .block
  | template => .template
  | substitution => .substitution
  | element => .element

/-- A token begins at an offset in bytes and has a text. -/
inductive Token where
  | leaf (kind : LeafKind) (start : Nat) (text : List Char)
  | opening (bracket : Bracket) (start : Nat) (text : List Char)
  | closing (start : Nat) (text : List Char)
deriving Repr

/-! ## Character classes -/

/-- A character that neither a name nor a number is made of. -/
def isOther (c : Char) : Bool :=
  c.toNat ≤ 0x20 || [':', ';', '\'', '"', '@', '.', ',', '|', '^', '&', '<', '=', '>', '+', '-', '*',
    '/', '%', '?', '!', '~', '(', ')', '[', ']', '\x7b', '\x7d', '\x60'].contains c ||
    [0xA0, 0x1680, 0x202F, 0x205F, 0x3000, 0xFEFF, 0x2060, 0x200B, 0x2028, 0x2029].contains
      c.toNat || (0x2000 ≤ c.toNat && c.toNat ≤ 0x200A)

/-- A character of a name. Escapes and the sign of a private name count as well. -/
def isNameChar (c : Char) : Bool := !isOther c

/-- A character that a name can begin with. -/
def beginsName (c : Char) : Bool := isNameChar c && !c.isDigit

/-- A character that ends a line. -/
def endsLine (c : Char) : Bool :=
  c == '\n' || c == '\r' || c.toNat == 0x2028 || c.toNat == 0x2029

/-- A character between tokens. -/
def isSpace (c : Char) : Bool := isOther c && (c.toNat ≤ 0x20 || 0x80 ≤ c.toNat)

/-! ## Lexemes: what a token takes from the text, and what is left -/

/-- Characters of a class. -/
def run (p : Char → Bool) (chars : List Char) : List Char × List Char := chars.span p

/-- A text up to and with a given pattern, or all of it. -/
def through (pattern : List Char) : List Char → List Char × List Char
  | [] => ([], [])
  | c :: rest =>
    if pattern.isPrefixOf (c :: rest) then (pattern, (c :: rest).drop pattern.length)
    else
      let (taken, rest) := through pattern rest
      (c :: taken, rest)

/-- A string behind its opening quote, up to and with the closing one. A backslash takes the next
character with it. A line end that is not escaped ends the string as well. -/
def stringTail (quote : Char) : List Char → List Char × List Char
  | [] => ([], [])
  | '\\' :: c :: rest =>
    let (taken, rest) := stringTail quote rest
    ('\\' :: c :: taken, rest)
  | c :: rest =>
    if c == quote then ([c], rest)
    else if c == '\n' || c == '\r' then ([], c :: rest)
    else
      let (taken, rest) := stringTail quote rest
      (c :: taken, rest)

/-- The text of a template up to a substitution or the closing quote. -/
def templateText : List Char → List Char × List Char
  | [] => ([], [])
  | '\\' :: c :: rest =>
    let (taken, rest) := templateText rest
    ('\\' :: c :: taken, rest)
  | '$' :: '{' :: rest => ([], '$' :: '{' :: rest)
  | c :: rest =>
    if c == '\x60' then ([], c :: rest)
    else
      let (taken, rest) := templateText rest
      (c :: taken, rest)

/-- A regular expression behind its opening slash, up to and with the closing one. A slash in a class
of characters does not close it. -/
def regexTail (inClass : Bool) : List Char → List Char × List Char
  | [] => ([], [])
  | '\\' :: c :: rest =>
    let (taken, rest) := regexTail inClass rest
    ('\\' :: c :: taken, rest)
  | c :: rest =>
    if c == '/' && !inClass then ([c], rest)
    else if c == '\n' || c == '\r' then ([], c :: rest)
    else
      let inClass := if c == '[' then true else if c == ']' then false else inClass
      let (taken, rest) := regexTail inClass rest
      (c :: taken, rest)

/-- A number. A point belongs to it once, and a sign behind the exponent of a decimal. -/
def numberTail (hexadecimal point : Bool) : List Char → List Char × List Char
  | [] => ([], [])
  | [c] => if isNameChar c || (c == '.' && point) then ([c], []) else ([], [c])
  | c :: d :: rest =>
    if c == '.' && point then
      let (taken, rest) := numberTail hexadecimal false (d :: rest)
      (c :: taken, rest)
    else if (c == 'e' || c == 'E') && !hexadecimal && (d == '+' || d == '-') then
      let (taken, rest) := numberTail true false rest
      (c :: d :: taken, rest)
    else if isNameChar c then
      let (taken, rest) := numberTail hexadecimal point (d :: rest)
      (c :: taken, rest)
    else ([], c :: d :: rest)

/-- A number from its first character on. -/
def number (chars : List Char) : List Char × List Char :=
  match chars with
  | '0' :: c :: rest =>
    let radix := ['x', 'X', 'o', 'O', 'b', 'B'].contains c
    let (taken, rest) := numberTail radix (!radix) (c :: rest)
    ('0' :: taken, rest)
  | '.' :: rest =>
    let (taken, rest) := numberTail false false rest
    ('.' :: taken, rest)
  | chars => numberTail false true chars

/-- The marks of more than one character, each before those that begin it. Angle brackets are not
joined, since some of them enclose types. -/
def longMarks : List (List Char) :=
  ["...", "===", "!==", "**=", "<<=", "&&=", "||=", "??=", "=>", "==", "!=", "<=", ">=", "&&", "||",
    "??", "?.", "++", "--", "+=", "-=", "*=", "/=", "%=", "&=", "|=", "^=", "**"].map String.toList

/-- A mark. A question mark before a decimal is no optional link. -/
def mark (chars : List Char) : List Char × List Char :=
  let decimal :=
    match chars with
    | '?' :: '.' :: c :: _ => c.isDigit
    | _ => false
  match longMarks.find? (·.isPrefixOf chars) with
  | some found => if decimal then chars.splitAt 1 else chars.splitAt found.length
  | none => chars.splitAt 1

end EmberAssist.Script
