import InterpTree.Text.Decimal

/-!
Numbers in binary floating point of 64 bits, in exact arithmetic on natural numbers. A quotient is
rounded to the nearest number, and to an even mantissa where two are equally near. The text of a
number has the fewest digits that read back as that number.
-/

namespace InterpTree

/-- A finite number that is not negative: `mantissa * 2 ^ exponent`. The mantissa has at most 53
bits, and exactly so many unless the exponent is the least there is. -/
structure Magnitude where
  mantissa : Nat
  exponent : Int
deriving DecidableEq

namespace Magnitude

/-- The least number with 53 bits. -/
def leastMantissa : Nat := 0x10000000000000

def leastExponent : Int := -1074

def greatestExponent : Int := 971

def zero : Magnitude := ⟨0, leastExponent⟩

/-- `numerator / denominator` rounded to an integer, a half to the even neighbour. -/
def roundQuotient (numerator denominator : Nat) : Nat :=
  let quotient := numerator / denominator
  let rest := 2 * (numerator % denominator)
  if rest < denominator || (rest = denominator && quotient % 2 = 0) then quotient else quotient + 1

/-- `numerator / (denominator * 2 ^ exponent)` as a quotient of natural numbers. -/
def scaledDown (numerator denominator : Nat) (exponent : Int) : Nat × Nat :=
  if 0 ≤ exponent then (numerator, denominator * Nat.pow 2 exponent.toNat)
  else (numerator * Nat.pow 2 (-exponent).toNat, denominator)

/-- The exponent that gives the quotient a mantissa of 53 bits, if there is such an exponent. -/
def exponentFor (numerator denominator : Nat) : Int :=
  let high : Int := Int.ofNat numerator.log2 - Int.ofNat denominator.log2 - 52
  let (n, d) := scaledDown numerator denominator high
  max (if n / d < leastMantissa then high - 1 else high) leastExponent

/-- The number nearest to a quotient, unless it is too large. -/
def ofQuotient? (numerator denominator : Nat) : Option Magnitude :=
  let exponent := exponentFor numerator denominator
  let (n, d) := scaledDown numerator denominator exponent
  let mantissa := roundQuotient n d
  let m : Magnitude :=
    if mantissa = 2 * leastMantissa then ⟨leastMantissa, exponent + 1⟩ else ⟨mantissa, exponent⟩
  if numerator = 0 then some zero
  else if greatestExponent < m.exponent then none
  else some m

/-- The number nearest to a natural number. -/
def ofNat? (n : Nat) : Option Magnitude := ofQuotient? n 1

/-- The number nearest to `digits * 10 ^ exponent`, unless it is too large. What is beyond all
numbers, or nearer to zero than any, is told by how many digits there are. -/
def ofDecimal? (digits : Nat) (exponent : Int) : Option Magnitude :=
  let size := Int.ofNat digits.repr.length + exponent
  if digits = 0 || size < -330 then some zero
  else if 310 < size then none
  else if 0 ≤ exponent then ofQuotient? (digits * Nat.pow 10 exponent.toNat) 1
  else ofQuotient? digits (Nat.pow 10 (-exponent).toNat)

/-- The number as a quotient. -/
def quotient (m : Magnitude) : Nat × Nat :=
  if 0 ≤ m.exponent then (m.mantissa * Nat.pow 2 m.exponent.toNat, 1)
  else (m.mantissa, Nat.pow 2 (-m.exponent).toNat)

/-- A product, rounded, unless it is too large. -/
def times? (a b : Magnitude) : Option Magnitude :=
  ofQuotient? (a.quotient.1 * b.quotient.1) (a.quotient.2 * b.quotient.2)

/-- A quotient, rounded, unless it is too large. -/
def over? (a b : Magnitude) : Option Magnitude :=
  if b.mantissa = 0 then none
  else ofQuotient? (a.quotient.1 * b.quotient.2) (a.quotient.2 * b.quotient.1)

/-- The whole part. -/
def whole (m : Magnitude) : Nat := m.quotient.1 / m.quotient.2

/-! ### Digits -/

/-- The quotients between which all reals round to the number: the lower one, the number itself and
the upper one, as numerators over a common denominator. -/
def neighbourhood (m : Magnitude) : (Nat × Nat × Nat) × Nat :=
  let below := if m.mantissa = leastMantissa && leastExponent < m.exponent then 1 else 2
  let quarter : Magnitude := ⟨1, m.exponent - 2⟩
  let (unit, denominator) := quarter.quotient
  (((4 * m.mantissa - below) * unit, 4 * m.mantissa * unit, (4 * m.mantissa + 2) * unit),
    denominator)

/-- The integer nearest to the number on the grid of the multiples of `10 ^ exponent`, of those that
read back as the number, if there are any. Where two are equally near, it is the even one. -/
def onGrid? (m : Magnitude) (exponent : Int) : Option Nat :=
  let ((low, value, high), denominator) := m.neighbourhood
  let up := Nat.pow 10 (-exponent).toNat
  let unit := denominator * Nat.pow 10 exponent.toNat
  let floor := value * up / unit
  let isEven := m.mantissa % 2 = 0
  let readsBack (n : Nat) : Bool :=
    (low * up < n * unit && n * unit < high * up) ||
      (isEven && (n * unit = low * up || n * unit = high * up))
  match readsBack floor, readsBack (floor + 1) with
  | true, true => some (roundQuotient (value * up) unit)
  | true, false => some floor
  | false, true => some (floor + 1)
  | false, false => none

/-- The least power of ten, by its exponent, above a number that is not zero. -/
def powerAbove (m : Magnitude) : Int :=
  let (n, d) := m.quotient
  if d ≤ n then Int.ofNat (n / d).repr.length else 1 - Int.ofNat (d / n).repr.length

/-- The shortest decimal that reads back as the number: `digits * 10 ^ exponent`. Seventeen digits
are always enough. -/
def shortest (m : Magnitude) : Nat × Int :=
  if m.mantissa = 0 then (0, 0)
  else
    let grids := (List.range 17).map fun n => m.powerAbove - Int.ofNat n - 1
    (grids.findSome? fun exponent => (m.onGrid? exponent).map fun digits => (digits, exponent)).getD
      (0, 0)

/-- The number in positional notation, with the fewest digits. -/
def text (m : Magnitude) : Text :=
  let (digits, exponent) := m.shortest
  if 0 ≤ exponent then Text.ofNat (digits * Nat.pow 10 exponent.toNat)
  else
    let unit := Nat.pow 10 (-exponent).toNat
    let fraction := (Text.ofNat (unit + digits % unit)).drop 1
    let fraction := (fraction.reverse.dropWhile (· = 48)).reverse
    Text.ofNat (digits / unit) ++ if fraction.isEmpty then [] else Text.dot :: fraction

end Magnitude

/-- A number in binary floating point, or none. -/
inductive Binary64
  | finite (negative : Bool) (magnitude : Magnitude)
  | infinite (negative : Bool)
  | nan
deriving DecidableEq

namespace Binary64

/-- The number in positional notation. -/
def text : Binary64 → Text
  | finite negative m => (if negative then [Text.dash] else []) ++ m.text
  | infinite negative => if negative then "-Inf" else "+Inf"
  | nan => "NaN"

/-- The whole part as a signed word of 64 bits. What does not fit is the least word. -/
def toWord : Binary64 → Int
  | finite negative m =>
    let i : Int := if negative then -Int.ofNat m.whole else Int.ofNat m.whole
    if minWord ≤ i ∧ i ≤ maxWord then i else minWord
  | _ => minWord

/-- Whether the number is at most `2 ^ power`. -/
def isAtMost (power : Nat) : Binary64 → Bool
  | finite negative m => negative || m.quotient.1 ≤ Nat.pow 2 power * m.quotient.2
  | infinite negative => negative
  | nan => false

/-- The whole part as an unsigned word of 64 bits, for a number of at most `2 ^ 64`. A negative
number wraps around, and so does `2 ^ 64` itself. -/
def toUnsigned (b : Binary64) : Nat :=
  match b with
  | finite false m => if m.whole < wordCount then m.whole else 0
  | b => (b.toWord % Int.ofNat wordCount).toNat

/-- Whether the number counts as false. -/
def isZero : Binary64 → Bool
  | finite _ m => m.mantissa = 0
  | _ => false

end Binary64

end InterpTree
