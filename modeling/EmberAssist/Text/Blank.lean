/-! Blank characters, and texts cut at them. -/
namespace EmberAssist.Text

/-- White space of any kind: the ASCII blanks and separators, the next-line and no-break spaces, and
the spaces and separators of the general punctuation block. -/
def isBlank (c : Char) : Bool :=
  let n := c.toNat
  (0x09 ≤ n && n ≤ 0x0D) || (0x1C ≤ n && n ≤ 0x20) || n == 0x85 || n == 0xA0 || n == 0x1680 ||
    (0x2000 ≤ n && n ≤ 0x200A) || n == 0x2028 || n == 0x2029 || n == 0x202F || n == 0x205F ||
    n == 0x3000

/-- The text without the characters of a class at its end. -/
def trimEnd (p : Char → Bool) (chars : List Char) : List Char :=
  (chars.reverse.dropWhile p).reverse

/-- The text without the characters of a class at either end. -/
def trim (p : Char → Bool) (chars : List Char) : List Char :=
  trimEnd p (chars.dropWhile p)

/-- The words of a text whose beginning, in the given word, has been read already. -/
def wordsAfter (word : List Char) : List Char → List (List Char)
  | [] => if word.isEmpty then [] else [word]
  | c :: rest =>
    if isBlank c then
      if word.isEmpty then wordsAfter [] rest else word :: wordsAfter [] rest
    else wordsAfter (word ++ [c]) rest

/-- The runs of characters between blanks. -/
def words (chars : List Char) : List (List Char) := wordsAfter [] chars

end EmberAssist.Text
