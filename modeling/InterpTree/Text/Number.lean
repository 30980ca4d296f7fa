import InterpTree.Binary64

/-!
Numbers as literals: integers in a base that their start tells, and numbers with a fraction or an
exponent. Where underscores are allowed they stand between digits or after the mark of a base.
-/

namespace InterpTree

namespace Text

def isDigit (c : UInt8) : Bool := 48 ≤ c && c ≤ 57

/-- The number that digits in a base stand for. -/
def digitsIn (base : Nat) (s : Text) : Option Nat :=
  if s.isEmpty then none
  else
    s.foldl
      (fun value c => do
        let d ← hexValue? c
        if d < base then return (← value) * base + d else none)
      (some 0)

/-- The base that a letter after a leading zero stands for. -/
def baseOf? (c : UInt8) : Option Nat :=
  if c = 120 ∨ c = 88 then some 16
  else if c = 111 ∨ c = 79 then some 8
  else if c = 98 ∨ c = 66 then some 2
  else none

/-- A natural number whose base is told by how it starts. -/
def natural? (s : Text) : Option Nat :=
  match s with
  | 48 :: c :: rest =>
    match baseOf? c with
    | some base => digitsIn base rest
    | none => digitsIn 8 (c :: rest)
  | s => digitsIn 10 s

/-- Whether a text starts with a minus, and the text without its sign. -/
def unsigned (s : Text) : Bool × Text :=
  match s with
  | 45 :: s => (true, s)
  | 43 :: s => (false, s)
  | s => (false, s)

/-- An integer with an optional sign, read as `read` says. -/
def signed? (read : Text → Option Nat) (s : Text) : Option Int :=
  let (negative, s) := unsigned s
  (read s).map fun n => if negative then -Int.ofNat n else Int.ofNat n

/-- An integer whose base is told by how it starts. -/
def integer? (s : Text) : Option Int := signed? natural? s

def withoutUnderscores (s : Text) : Text := s.filter (· ≠ underscore)

/-- What comes before a byte of a literal. -/
inductive Before
  | nothing
  | digit
  | underscore
  | other
deriving DecidableEq

/-- Whether every underscore has a digit on both sides. -/
def underscoresBetween (isDigit : UInt8 → Bool) : Before → Text → Bool
  | before, [] => before != .underscore
  | before, c :: s =>
    if isDigit c then underscoresBetween isDigit .digit s
    else if c = underscore then
      before == .digit && underscoresBetween isDigit .underscore s
    else before != .underscore && underscoresBetween isDigit .other s

/-- Whether every underscore stands between digits or after the mark of a base. -/
def underscoresFit (s : Text) : Bool :=
  let s := (unsigned s).2
  match s with
  | 48 :: c :: rest =>
    match baseOf? c with
    | some base =>
      underscoresBetween
        (fun c => if base = 16 then (hexValue? c).isSome else isDigit c) .digit rest
    | none => underscoresBetween isDigit .nothing s
  | s => underscoresBetween isDigit .nothing s

/-- The exponent at the end of a number, if it has one. -/
def exponent? (s : Text) : Option Int :=
  match s with
  | [] => some 0
  | c :: s => if c = 101 ∨ c = 69 then signed? toNat? s else none

/-- A number with a fraction or an exponent, unless it is too large. -/
def real? (s : Text) : Option Binary64 := do
  let (negative, s) := unsigned s
  let whole := s.takeWhile isDigit
  let s := s.dropWhile isDigit
  let (fraction, s) :=
    if s.head? = some dot then ((s.drop 1).takeWhile isDigit, (s.drop 1).dropWhile isDigit)
    else ([], s)
  if whole.isEmpty && fraction.isEmpty then none
  let exponent ← exponent? s
  let digits ← toNat? (whole ++ fraction)
  let m ← Magnitude.ofDecimal? digits (exponent - Int.ofNat fraction.length)
  return .finite negative m

end Text

end InterpTree
