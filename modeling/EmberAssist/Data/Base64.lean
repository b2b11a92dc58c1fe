/-! Bytes written in base 64: four characters for three bytes. -/
namespace EmberAssist.Data.Base64

/-- The six bits that a character stands for. -/
def sextet? (c : Char) : Option Nat :=
  if 'A' ≤ c ∧ c ≤ 'Z' then some (c.toNat - 65)
  else if 'a' ≤ c ∧ c ≤ 'z' then some (c.toNat - 71)
  else if c.isDigit then some (c.toNat + 4)
  else if c == '+' then some 62
  else if c == '/' then some 63
  else none

/-- Reads on in a group of four of which some characters have been read. `rest` holds the bits that no
byte has taken yet, and `pads` counts the equals signs since the last character. A group of two or
three characters may be filled up with equals signs, which end the text; all other characters are
skipped. -/
def decodeFrom (read rest pads : Nat) : List Char → Option (List UInt8)
  | [] => if read == 0 then some [] else none
  | '=' :: chars =>
    if 2 ≤ read then
      if 4 ≤ read + pads + 1 then some [] else decodeFrom read rest (pads + 1) chars
    else decodeFrom read rest pads chars
  | c :: chars =>
    match sextet? c, read with
    | none, _ => decodeFrom read rest pads chars
    | some bits, 0 => decodeFrom 1 bits 0 chars
    | some bits, 1 => (decodeFrom 2 (bits % 16) 0 chars).map (.ofNat (rest * 4 + bits / 16) :: ·)
    | some bits, 2 => (decodeFrom 3 (bits % 4) 0 chars).map (.ofNat (rest * 16 + bits / 4) :: ·)
    | some bits, _ => (decodeFrom 0 0 0 chars).map (.ofNat (rest * 64 + bits) :: ·)

/-- The bytes of a text. -/
def decode? (chars : List Char) : Option (List UInt8) := decodeFrom 0 0 0 chars

end EmberAssist.Data.Base64
