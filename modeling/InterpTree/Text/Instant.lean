import InterpTree.Text.Number

/-!
Instants as texts: a date, and a time of day with or without a zone. A layout lists the parts of
such a text in their order; a text fits if each part does and the date exists.
-/

namespace InterpTree

namespace Instant

open Text

/-- A part of an instant. A part that is wide has two digits, any other one or two. -/
inductive Part
  /-- Four digits. -/
  | year
  | month (wide : Bool)
  | day (wide : Bool)
  | hour
  | minute (wide : Bool)
  | second (wide : Bool)
  /-- The digits of a fraction of a second, which may be left out. -/
  | fraction
  /-- `Z`, or a sign, hours and minutes. -/
  | zone
  | mark (c : UInt8)
  | spaces
deriving DecidableEq

/-- The calendar date of an instant. -/
structure Date where
  year : Nat := 1
  month : Nat := 1
  day : Nat := 1
deriving DecidableEq

def isLeap (year : Nat) : Bool := year % 4 = 0 && (year % 100 ≠ 0 || year % 400 = 0)

/-- How many days a month has. -/
def daysIn (year month : Nat) : Nat :=
  if month = 2 then (if isLeap year then 29 else 28)
  else if [4, 6, 9, 11].contains month then 30
  else 31

/-- Whether the calendar has the date. -/
def Date.exists (d : Date) : Bool :=
  1 ≤ d.month && d.month ≤ 12 && 1 ≤ d.day && d.day ≤ daysIn d.year d.month

/-- A number of one or two digits, and what follows it. -/
def number? (wide : Bool) (s : Text) : Option (Nat × Text) := do
  match s with
  | [] => none
  | c :: s =>
    let tens ← digit? c
    match s.head?.bind digit? with
    | some ones => return (tens * 10 + ones, s.drop 1)
    | none => if wide then none else return (tens, s)

/-- A number below a bound, and what follows it. -/
def below? (bound : Nat) (wide : Bool) (s : Text) : Option Text :=
  ((number? wide s).filter fun (n, _) => n < bound).map Prod.snd

/-- What follows the fraction of a second, if there is one. -/
def afterFraction (s : Text) : Text :=
  match s with
  | c :: d :: rest =>
    if (c = dot || c = 44) && isDigit d then rest.dropWhile isDigit else s
  | s => s

/-- What follows a zone. -/
def afterZone? (s : Text) : Option Text :=
  match s with
  | 90 :: rest => some rest
  | sign :: rest => do
    if sign ≠ 43 && sign ≠ dash then none
    let (hours, rest) ← number? true rest
    if rest.head? ≠ some colon then none
    let (minutes, rest) ← number? true (rest.drop 1)
    if hours ≤ 24 && minutes ≤ 60 then some rest else none
  | [] => none

/-- Takes one part off a text. -/
def Part.take? (d : Date) (s : Text) : Part → Option (Date × Text)
  | .year => do
    let digits := s.take 4
    if digits.length < 4 then none
    return ({ d with year := ← toNat? digits }, s.drop 4)
  | .month wide => do
    let (n, s) ← number? wide s
    return ({ d with month := n }, s)
  | .day wide => do
    let (n, s) ← number? wide s
    return ({ d with day := n }, s)
  | .hour => (below? 24 false s).map (d, ·)
  | .minute wide => (below? 60 wide s).map (d, ·)
  | .second wide => (below? 60 wide s).map (d, ·)
  | .fraction => some (d, afterFraction s)
  | .zone => (afterZone? s).map (d, ·)
  | .mark c => if s.head? = some c then some (d, s.drop 1) else none
  | .spaces => if s.head? = some space then some (d, s.dropWhile (· = space)) else none

/-- Whether a text fits a layout. -/
def fits (layout : List Part) (s : Text) : Bool :=
  match layout.foldlM (fun (d, s) part => part.take? d s) (({} : Date), s) with
  | some (d, []) => d.exists
  | _ => false

/-- A date. -/
def date (wide : Bool) : List Part :=
  [.year, .mark dash, .month wide, .mark dash, .day wide]

/-- A time of day. -/
def time (wide : Bool) : List Part :=
  [.hour, .mark colon, .minute wide, .mark colon, .second wide, .fraction]

end Instant

end InterpTree
