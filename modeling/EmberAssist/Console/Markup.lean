import EmberAssist.Text.Blank
import EmberAssist.Text.Search

/-! Markup in texts for the terminal: tags in brackets turn styles on and off. Styles are not shown here,
so that only the text between the tags is left. -/
namespace EmberAssist.Console

/-- A piece of a text with markup. -/
inductive Piece where
  | text (chars : List Char)
  | tag (name : List Char)
deriving DecidableEq, Repr

/-- A character that a tag can begin with. -/
def beginsTag (c : Char) : Bool := ('a' ≤ c && c ≤ 'z') || c == '#' || c == '/' || c == '@'

/-- The tag behind an opening bracket, up to the first closing one, and what follows it. No other
bracket opens before that. -/
def tagBehind? (chars : List Char) : Option (List Char × List Char) :=
  match chars.span fun c => c != ']' && c != '[' with
  | (first :: others, ']' :: rest) =>
    if beginsTag first then some (first :: others, rest) else none
  | _ => none

/-- The name of a tag, which ends before an equals sign. -/
def tagName (tag : List Char) : List Char := tag.takeWhile (· != '=')

/-- Puts a character before pieces. -/
def prepend (c : Char) : List Piece → List Piece
  | .text chars :: rest => .text (c :: chars) :: rest
  | pieces => .text [c] :: pieces

/-- The pieces of a text, `slashes` backslashes standing before it. Two backslashes before a tag are
one, and one takes the tag's meaning away. The bound counts characters. -/
def piecesFrom (slashes : Nat) : Nat → List Char → List Piece
  | 0, _ => []
  | _, [] => if slashes = 0 then [] else [.text (List.replicate slashes '\\')]
  | bound + 1, '\\' :: rest => piecesFrom (slashes + 1) bound rest
  | bound + 1, c :: rest =>
    match if c == '[' then tagBehind? rest else none with
    | some (tag, behind) =>
      let literal := List.replicate (slashes / 2) '\\'
      if slashes % 2 = 0 then .text literal :: .tag (tagName tag) :: piecesFrom 0 bound behind
      else .text (literal ++ '[' :: tag ++ [']']) :: piecesFrom 0 bound behind
    | none =>
      let kept := if c == '[' then slashes - 1 else slashes
      .text (List.replicate kept '\\' ++ [c]) :: piecesFrom 0 bound rest

/-- The name of a style as it is compared: without blanks around it, in lower case, and in full. -/
def styleName (name : List Char) : String :=
  match String.ofList ((Text.trim Text.isBlank name).map Char.toLower) with
  | "b" => "bold"
  | "d" => "dim"
  | "i" => "italic"
  | "r" => "reverse"
  | "s" => "strike"
  | "u" => "underline"
  | "uu" => "underline2"
  | "o" => "overline"
  | name => name

/-- Takes a style away from those that are on, the latest of its name. -/
def switchOff? (name : String) : List String → Option (List String)
  | [] => none
  | style :: styles =>
    if style == name then some styles else (switchOff? name styles).map (style :: ·)

/-- The text of pieces while some styles are on, the latest first. A tag must not turn off a style that
is not on. -/
def textOf? (styles : List String) : List Piece → Option (List Char)
  | [] => some []
  | .text chars :: rest => (textOf? styles rest).map (chars ++ ·)
  | .tag ('/' :: name) :: rest =>
    let closed := styleName name
    match if closed.isEmpty then styles.tail? else switchOff? closed styles with
    | some styles => textOf? styles rest
    | none => none
  | .tag name :: rest => textOf? (styleName name :: styles) rest

/-- A character that terminals do not show but obey. -/
def isControl (c : Char) : Bool := [7, 8, 11, 12, 13].contains c.toNat

/-- The text that a text with markup shows, unless a tag turns off a style that is not on. -/
def shown? (markup : List Char) : Option (List Char) :=
  (textOf? [] (piecesFrom 0 (markup.length + 1) markup)).map (·.filter (!isControl ·))

/-- A text in a style. -/
def styled (style : String) (chars : List Char) : List Char :=
  '[' :: style.toList ++ ']' :: chars ++ "[/".toList ++ style.toList ++ [']']

end EmberAssist.Console
