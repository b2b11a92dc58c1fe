/-! Numbers of double precision, each a whole number times a power of two. Rounding is exact
arithmetic on whole numbers, so that a number that has been read can be computed with. -/
namespace EmberAssist

/-- A number of double precision. A finite one is `mantissa * 2 ^ exponent` with its sign, and zero
has a sign too. -/
inductive Double where
  | finite (negative : Bool) (mantissa : Nat) (exponent : Int)
  | infinite (negative : Bool)
  | nan
deriving DecidableEq, Repr, Inhabited

namespace Double

/-- The digits of precision in base two. -/
def precision : Nat := 53

/-- The smallest exponent that a finite number can have. -/
def leastExponent : Int := -1074

/-- The largest exponent that a finite number of full precision can have. -/
def greatestExponent : Int := 971

/-- The whole number nearest to a quotient; a half goes to the even neighbour. -/
def roundQuotient (num den : Nat) : Nat :=
  let floor := num / den
  let rest := num % den
  if 2 * rest < den then floor
  else if den < 2 * rest then floor + 1
  else if floor % 2 == 0 then floor else floor + 1

/-- A quotient divided by a power of two. -/
def scaleDown (num den : Nat) (exponent : Int) : Nat × Nat :=
  if 0 ≤ exponent then (num, den * Nat.pow 2 exponent.toNat)
  else (num * Nat.pow 2 (-exponent).toNat, den)

/-- The exponent at which a positive quotient has the full precision, or the least exponent. -/
def fittingExponent (num den : Nat) : Int :=
  let guess := max leastExponent ((Nat.log2 num : Int) - Nat.log2 den - precision)
  let (n, d) := scaleDown num den guess
  if n / d < Nat.pow 2 precision then guess else guess + 1

/-- The number of double precision nearest to a quotient; a half goes to the even neighbour. -/
def ofQuotient (negative : Bool) (num den : Nat) : Double :=
  if num == 0 then finite negative 0 0
  else
    let exponent := fittingExponent num den
    let (n, d) := scaleDown num den exponent
    let mantissa := roundQuotient n d
    let (mantissa, exponent) :=
      if mantissa == Nat.pow 2 precision then (Nat.pow 2 (precision - 1), exponent + 1)
      else (mantissa, exponent)
    if mantissa == 0 then finite negative 0 0
    else if greatestExponent < exponent then infinite negative
    else finite negative mantissa exponent

/-- How many decimal digits a whole number has. -/
def digitCount (n : Nat) : Nat := (Nat.toDigits 10 n).length

/-- The number of double precision nearest to `mantissa * 10 ^ exponent`. Exponents far outside the
range are settled without computing the power. -/
def ofDecimal (negative : Bool) (mantissa : Nat) (exponent : Int) : Double :=
  let magnitude := (digitCount mantissa : Int) + exponent
  if mantissa == 0 then finite negative 0 0
  else if 310 < magnitude then infinite negative
  else if magnitude < -330 then finite negative 0 0
  else if 0 ≤ exponent then ofQuotient negative (mantissa * Nat.pow 10 exponent.toNat) 1
  else ofQuotient negative mantissa (Nat.pow 10 (-exponent).toNat)

/-- The nearest number to a whole one. -/
def ofInt (n : Int) : Double := ofQuotient (n < 0) n.natAbs 1

/-- The opposite number. -/
def neg : Double → Double
  | finite negative mantissa exponent => finite (!negative) mantissa exponent
  | infinite negative => infinite (!negative)
  | nan => nan

/-- A finite number as a signed whole number times a power of two. -/
def signed (negative : Bool) (mantissa : Nat) : Int := if negative then -mantissa else mantissa

/-- The nearest number to a signed whole number times a power of two; an exact zero keeps the sign
it is given. -/
def ofScaled (zeroSign : Bool) (n exponent : Int) : Double :=
  if n == 0 then finite zeroSign 0 0
  else if 0 ≤ exponent then ofQuotient (n < 0) (n.natAbs * Nat.pow 2 exponent.toNat) 1
  else ofQuotient (n < 0) n.natAbs (Nat.pow 2 (-exponent).toNat)

/-- The sum, rounded once. -/
def add : Double → Double → Double
  | finite s m e, finite s' m' e' =>
    let least := min e e'
    let total := signed s m * Int.pow 2 (e - least).toNat + signed s' m' * Int.pow 2 (e' - least).toNat
    ofScaled (s && s') total least
  | nan, _ => nan
  | _, nan => nan
  | infinite s, infinite s' => if s == s' then infinite s else nan
  | infinite s, finite .. => infinite s
  | finite .., infinite s => infinite s

/-- The product, rounded once. -/
def mul : Double → Double → Double
  | finite s m e, finite s' m' e' => ofScaled (s != s') (signed s m * signed s' m') (e + e')
  | nan, _ => nan
  | _, nan => nan
  | infinite s, finite s' m _ => if m == 0 then nan else infinite (s != s')
  | finite s m _, infinite s' => if m == 0 then nan else infinite (s != s')
  | infinite s, infinite s' => infinite (s != s')

/-- The whole number that a number is equal to, if there is one. -/
def toInt? : Double → Option Int
  | finite s m e =>
    if m == 0 then some 0
    else if 0 ≤ e then some (signed s (m * Nat.pow 2 e.toNat))
    else if m % Nat.pow 2 (-e).toNat == 0 then some (signed s (m / Nat.pow 2 (-e).toNat))
    else none
  | infinite _ => none
  | nan => none

/-- Equality of numbers: zero is zero whatever its sign, and nothing equals the undefined number. -/
def equal : Double → Double → Bool
  | finite s m e, finite s' m' e' => (m == 0 && m' == 0) || (s == s' && m == m' && e == e')
  | infinite s, infinite s' => s == s'
  | _, _ => false

end Double

end EmberAssist
