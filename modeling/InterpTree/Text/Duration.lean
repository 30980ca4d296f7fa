import InterpTree.Text.Number

/-!
Spans of time as texts: decimal numbers, each with a unit from hours down to nanoseconds. A span is
a signed word of 64 bits that counts nanoseconds. A fraction of a unit counts as much as binary
floating point can tell, and so many of its digits as fit a word.
-/

namespace InterpTree

namespace Duration

def microsecond : Nat := 1000
def millisecond : Nat := 1000000
def second : Nat := 1000000000
def minute : Nat := 60 * second
def hour : Nat := 60 * minute

/-- `n` divided by ten to the `places`, in decimal without trailing zeros. -/
def scaled (places n : Nat) : Text :=
  let unit := Nat.pow 10 places
  let digits := (Text.ofNat (unit + n % unit)).drop 1
  let digits := (digits.reverse.dropWhile (· = 48)).reverse
  Text.ofNat (n / unit) ++ if digits.isEmpty then [] else Text.dot :: digits

/-- The text of a span that is not negative. -/
def textOfNat (n : Nat) : Text :=
  if n = 0 then "0s"
  else if n < microsecond then Text.ofNat n ++ "ns"
  else if n < millisecond then scaled 3 n ++ "µs"
  else if n < second then scaled 6 n ++ "ms"
  else
    let seconds := scaled 9 (n % minute) ++ "s"
    if n < minute then seconds
    else
      let minutes := Text.ofNat (n % hour / minute) ++ "m" ++ seconds
      if n < hour then minutes else Text.ofNat (n / hour) ++ "h" ++ minutes

/-- The text of a span. -/
def text (span : Int) : Text :=
  if span < 0 then Text.dash :: textOfNat span.natAbs else textOfNat span.natAbs

/-- The length of a unit. -/
def unit? (name : Text) : Option Nat :=
  [(("ns" : Text), 1), ("us", microsecond), ("µs", microsecond), ("μs", microsecond),
    ("ms", millisecond), ("s", second), ("m", minute), ("h", hour)].lookup name

/-- A run of digits as a number; no digits are zero. -/
def digits (s : Text) : Nat := (Text.toNat? s).getD 0

/-- The greatest number that a span may count, below zero or in between. -/
def bound : Nat := 0x8000000000000000

/-- The digits of a fraction as a number, and ten to their count. Digits from the first that does
not fit on are left out. -/
def fraction (value : Nat) (scale : Option Magnitude) : Text → Nat × Option Magnitude
  | [] => (value, scale)
  | c :: s =>
    let next := value * 10 + (c.toNat - 48)
    if (bound - 1) / 10 < value || bound < next then (value, scale)
    else fraction next (scale.bind fun m => (Magnitude.ofNat? 10).bind m.times?) s

/-- What a fraction of a unit counts. A power of ten that is too large leaves nothing of it. -/
def fractionOf (unit : Nat) (s : Text) : Nat :=
  let (value, scale) := fraction 0 (Magnitude.ofNat? 1) s
  let share := do
    let part ← (← Magnitude.ofNat? unit).over? (← scale)
    (← Magnitude.ofNat? value).times? part
  (share.map Magnitude.whole).getD 0

/-- One number with its unit, and what follows. -/
def component? (s : Text) : Option (Nat × Text) := do
  let whole := s.takeWhile Text.isDigit
  let s := s.dropWhile Text.isDigit
  let (fraction, s) :=
    if s.head? = some Text.dot then
      ((s.drop 1).takeWhile Text.isDigit, (s.drop 1).dropWhile Text.isDigit)
    else ([], s)
  if whole.isEmpty && fraction.isEmpty then none
  let name := s.takeWhile fun c => !Text.isDigit c && c ≠ Text.dot
  let unit ← unit? name
  let value := digits whole * unit + fractionOf unit fraction
  if bound / unit < digits whole || bound < value then none
  return (value, s.drop name.length)

/-- The sum of `total` and of numbers with units up to the end of the text, in a word of 64 bits;
`fuel` bounds how many numbers there are. -/
def components? (total : Nat) : Nat → Text → Option Nat
  | 0, _ => none
  | fuel + 1, s => do
    let (value, rest) ← component? s
    let total := (total + value) % wordCount
    if bound < total then none
    if rest.isEmpty then return total else components? total fuel rest

/-- Reads a span. A lone zero needs no unit. -/
def ofText? (s : Text) : Option Int := do
  let (negative, s) :=
    match s with
    | 45 :: s => (true, s)
    | 43 :: s => (false, s)
    | s => (false, s)
  if s = [48] then return 0
  let value ← components? 0 s.length s
  if negative then return -Int.ofNat value
  else if value < bound then return Int.ofNat value
  else none

end Duration

end InterpTree
