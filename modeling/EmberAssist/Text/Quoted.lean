import EmberAssist.Text.Printable

/-! Texts in quotes, for messages and for values inside other values. Quotes of the sort used,
backslashes and characters that cannot be shown are escaped. -/
namespace EmberAssist.Text

/-- A number in hexadecimal digits of lower case, at least as many as asked for. -/
def hexText (width n : Nat) : List Char :=
  let digits := Nat.toDigits 16 n
  List.replicate (width - digits.length) '0' ++ digits

/-- A character inside quotes. -/
def quoteChar (quote c : Char) : List Char :=
  if c == quote || c == '\\' then ['\\', c]
  else if c == '\n' then ['\\', 'n']
  else if c == '\r' then ['\\', 'r']
  else if c == '\t' then ['\\', 't']
  else if isPrintable c then [c]
  else if c.toNat < 0x100 then '\\' :: 'x' :: hexText 2 c.toNat
  else if c.toNat < 0x10000 then '\\' :: 'u' :: hexText 4 c.toNat
  else '\\' :: 'U' :: hexText 8 c.toNat

/-- A text in single quotes, or in double ones if it has single quotes and no double ones. -/
def quoted (chars : List Char) : List Char :=
  let quote := if chars.contains '\'' && !chars.contains '"' then '"' else '\''
  quote :: chars.flatMap (quoteChar quote) ++ [quote]

/-- A string in quotes. -/
def quotedString (text : String) : String := String.ofList (quoted text.toList)

end EmberAssist.Text
