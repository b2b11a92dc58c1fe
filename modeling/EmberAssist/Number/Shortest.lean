import EmberAssist.Number.Double

/-! The shortest decimal text of a number of double precision: the fewest digits that read back as
the same number, and of several such decimals the nearest to it. -/
namespace EmberAssist.Double

/-- The decimals that read back as a positive number lie between two quotients over one
denominator, the ends included when the mantissa is even. -/
structure Neighbourhood where
  low : Nat
  value : Nat
  high : Nat
  den : Nat
  closed : Bool
deriving Repr

/-- The decimals that read back as `mantissa * 2 ^ exponent`. Below a power of two the next smaller
number is only half as far away. -/
def neighbourhood (mantissa : Nat) (exponent : Int) : Neighbourhood :=
  let closer := mantissa == Nat.pow 2 (precision - 1) && leastExponent < exponent
  let low := if closer then 4 * mantissa - 1 else 4 * mantissa - 2
  let (up, den) := if 0 ≤ exponent then (Nat.pow 2 exponent.toNat, 4)
    else (1, 4 * Nat.pow 2 (-exponent).toNat)
  ⟨low * up, 4 * mantissa * up, (4 * mantissa + 2) * up, den, mantissa % 2 == 0⟩

/-- Whether the quotient `num / den` reads back as the number. -/
def Neighbourhood.holds (n : Neighbourhood) (num den : Nat) : Bool :=
  if n.closed then n.low * den ≤ num * n.den && num * n.den ≤ n.high * den
  else n.low * den < num * n.den && num * n.den < n.high * den

/-- The power of ten as a quotient. -/
def powerOfTen (e : Int) : Nat × Nat :=
  if 0 ≤ e then (Nat.pow 10 e.toNat, 1) else (1, Nat.pow 10 (-e).toNat)

/-- The exponent of the leading decimal digit of a positive quotient, at most two steps above the
guess. -/
def leadingExponent (num den : Nat) (guess : Int) : Nat → Int
  | 0 => guess
  | steps + 1 =>
    let (up, down) := powerOfTen (guess + 1)
    if den * up ≤ num * down then leadingExponent num den (guess + 1) steps else guess

/-- The decimals with a given last place on either side of the number: the nearest of them that
reads back. -/
def onGrid (n : Neighbourhood) (place : Int) : Option Nat :=
  let (up, down) := powerOfTen place
  let below := n.value * down / (n.den * up)
  let belowHolds := n.holds (below * up) down
  let aboveHolds := n.holds ((below + 1) * up) down
  let fromBelow := n.value * down - below * (n.den * up)
  let fromAbove := (below + 1) * (n.den * up) - n.value * down
  if belowHolds && aboveHolds then
    if fromBelow < fromAbove then some below
    else if fromAbove < fromBelow then some (below + 1)
    else if below % 2 == 0 then some below else some (below + 1)
  else if belowHolds then some below
  else if aboveHolds then some (below + 1)
  else none

/-- Digits and last place of the shortest decimal, trying one more digit at a time. -/
def shortestFrom (n : Neighbourhood) (place : Int) : Nat → Nat × Int
  | 0 => (0, 0)
  | tries + 1 =>
    match onGrid n place with
    | some digits => (digits, place)
    | none => shortestFrom n (place - 1) tries

/-- Digits and last place of the shortest decimal that reads back as `mantissa * 2 ^ exponent`. -/
def shortest (mantissa : Nat) (exponent : Int) : Nat × Int :=
  let n := neighbourhood mantissa exponent
  let guess := ((Nat.log2 mantissa : Int) + exponent) * 30103 / 100000 - 1
  let lead := leadingExponent n.value n.den guess 3
  shortestFrom n lead 18

/-- How a number is written in decimals: plain between two bounds on the exponent of its first
digit, with an exponent outside them. -/
structure DecimalFormat where
  leastPlain : Int
  pastPlain : Int
  exponentDigits : Nat

/-- Numbers below `10 ^ 16` and from `10 ^ -4` on are written plainly, others with an exponent of two
digits or more. -/
def plainFormat : DecimalFormat := ⟨-4, 16, 2⟩

/-- Writes the exponent of ten with its sign. -/
def exponentText (format : DecimalFormat) (e : Int) : List Char :=
  let digits := Nat.toDigits 10 e.natAbs
  'e' :: (if e < 0 then '-' else '+') ::
    (List.replicate (format.exponentDigits - digits.length) '0' ++ digits)

/-- Writes the digits of a positive decimal whose last digit stands at a place, always with a point
or an exponent. -/
def positiveText (format : DecimalFormat) (digits : Nat) (place : Int) : List Char :=
  let shown := ((Nat.toDigits 10 digits).reverse.dropWhile (· == '0')).reverse
  let lead := ((Nat.toDigits 10 digits).length : Int) - 1 + place
  if format.leastPlain ≤ lead && lead < format.pastPlain then
    if lead < 0 then
      '0' :: '.' :: (List.replicate (-lead - 1).toNat '0' ++ shown)
    else
      let whole := lead.toNat + 1
      let fraction := shown.drop whole
      shown.take whole ++ List.replicate (whole - shown.length) '0' ++
        '.' :: (if fraction.isEmpty then ['0'] else fraction)
  else
    let mantissa :=
      match shown with
      | first :: second :: others => first :: '.' :: second :: others
      | short => short
    mantissa ++ exponentText format lead

/-- The shortest text that reads back as the number. -/
def text (format : DecimalFormat) : Double → List Char
  | nan => "nan".toList
  | infinite negative => (if negative then "-inf" else "inf").toList
  | finite negative mantissa exponent =>
    let sign := if negative then ['-'] else []
    if mantissa == 0 then sign ++ "0.0".toList
    else
      let (digits, place) := shortest mantissa exponent
      sign ++ positiveText format digits place

/-- The shortest text of a number, in the plain format. -/
def plainText (number : Double) : String := String.ofList (number.text plainFormat)

end EmberAssist.Double
