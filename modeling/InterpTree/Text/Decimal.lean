import InterpTree.Text

/-!
Integers as scripts write them: an optional sign and decimal digits, held in a word of 64 bits.
Arithmetic on them wraps around.
-/

namespace InterpTree

/-- How many words of 64 bits there are: two to the 64. -/
def wordCount : Nat := 0x10000000000000000

/-- The signed 64-bit word that agrees with `i` modulo `wordCount`. -/
def wrap64 (i : Int) : Int := i.bmod wordCount

/-- The largest signed 64-bit word. -/
def maxWord : Int := 0x7fffffffffffffff

/-- The least signed 64-bit word. -/
def minWord : Int := -0x8000000000000000

namespace Text

/-- The value of a decimal digit. -/
def digit? (c : UInt8) : Option Nat := if 48 ≤ c ∧ c ≤ 57 then some (c.toNat - 48) else none

/-- The number that a non-empty run of decimal digits stands for. -/
def toNat? (s : Text) : Option Nat :=
  if s.isEmpty then none
  else s.foldl (fun value c => do return (← value) * 10 + (← digit? c)) (some 0)

/-- An integer with an optional sign, of any size. -/
def toWholeInt? (s : Text) : Option Int :=
  match s with
  | 43 :: digits => (toNat? digits).map Int.ofNat
  | 45 :: digits => (toNat? digits).map fun n => -Int.ofNat n
  | digits => (toNat? digits).map Int.ofNat

/-- An integer with an optional sign that fits a signed word of 64 bits. -/
def toInt? (s : Text) : Option Int :=
  (toWholeInt? s).filter fun i => minWord ≤ i && i ≤ maxWord

/-- A natural number without sign that fits an unsigned word of 64 bits. -/
def toWord? (s : Text) : Option Nat := (toNat? s).filter fun n => n < wordCount

end Text

end InterpTree
