/-!
Texts are byte strings. A script, a name, a path or a message may hold any bytes at all, so lengths,
cuts and comparisons count bytes; what a text shows as characters is read off it only where a
message is quoted or blanks are trimmed.
-/

namespace InterpTree

/-- A text is the list of its bytes. -/
abbrev Text := List UInt8

namespace Text

/-- The bytes of a string, in UTF-8. -/
def ofString (s : String) : Text := s.toByteArray.data.toList

instance : Coe String Text := ⟨ofString⟩

/-- A natural number in decimal. -/
def ofNat (n : Nat) : Text := ofString n.repr

/-- An integer in decimal, with a sign only if it is negative. -/
def ofInt (i : Int) : Text :=
  if i < 0 then ofString "-" ++ ofNat i.natAbs else ofNat i.natAbs

/-- Scripts write truth as `1` and `0`. -/
def ofBool (b : Bool) : Text := if b then "1" else "0"

/-- `parts` one after the other with `separator` between neighbours. -/
def join (separator : Text) (parts : List Text) : Text := separator.intercalate parts

/-- Words on one line. -/
def words (parts : List Text) : Text := join " " parts

/-- The order of texts, byte by byte. -/
def le (a b : Text) : Bool := decide (a ≤ b)

/-- Texts in byte order. -/
def sorted (ts : List Text) : List Text := ts.mergeSort le

def newline : UInt8 := 10
def tab : UInt8 := 9
def carriageReturn : UInt8 := 13
def space : UInt8 := 32
def quoteMark : UInt8 := 34
def hash : UInt8 := 35
def dollar : UInt8 := 36
def dash : UInt8 := 45
def dot : UInt8 := 46
def slash : UInt8 := 47
def colon : UInt8 := 58
def semicolon : UInt8 := 59
def openBracket : UInt8 := 91
def backslash : UInt8 := 92
def closeBracket : UInt8 := 93
def underscore : UInt8 := 95
def openBrace : UInt8 := 123
def closeBrace : UInt8 := 125

/-- The part of `s` before its suffix `rest`. -/
def upTo (s rest : Text) : Text := s.take (s.length - rest.length)

/-- The parts of a text between occurrences of a byte. -/
def splitAt (mark : UInt8) : Text → List Text
  | [] => [[]]
  | c :: s =>
    if c = mark then [] :: splitAt mark s
    else
      match splitAt mark s with
      | [] => [[c]]
      | part :: parts => (c :: part) :: parts

/-- A text cut at the first occurrence of a byte, which belongs to neither side. -/
def cutFirst (mark : UInt8) : Text → Option (Text × Text)
  | [] => none
  | c :: s =>
    if c = mark then some ([], s)
    else (cutFirst mark s).map fun (before, after) => (c :: before, after)

theorem length_of_cutFirst {mark : UInt8} {s before after : Text}
    (h : cutFirst mark s = some (before, after)) : after.length < s.length := by
  induction s generalizing before with
  | nil => simp [cutFirst] at h
  | cons c s ih =>
    rw [cutFirst] at h
    split at h
    · simp_all
    · obtain ⟨⟨b, a⟩, hcut, heq⟩ := Option.map_eq_some_iff.1 h
      simp only [Prod.mk.injEq] at heq
      obtain ⟨-, rfl⟩ := heq
      exact Nat.lt_succ_of_lt (ih hcut)

/-- A text cut at the last occurrence of a byte, which belongs to neither side. -/
def cutLast (mark : UInt8) : Text → Option (Text × Text)
  | [] => none
  | c :: s =>
    match cutLast mark s with
    | some (before, after) => some (c :: before, after)
    | none => if c = mark then some ([], s) else none

/-- One digit of a number in base sixteen. -/
def hexDigit (n : Nat) : UInt8 :=
  if n % 16 < 10 then (48 + n % 16).toUInt8 else (87 + n % 16).toUInt8

/-- The lowest `width` digits of `n` in base sixteen. -/
def hex (width : Nat) (n : Nat) : Text :=
  (List.range width).reverse.map fun i => hexDigit (n / Nat.pow 16 i)

/-- The value of a digit in base sixteen, of either case. -/
def hexValue? (c : UInt8) : Option Nat :=
  if 48 ≤ c ∧ c ≤ 57 then some (c.toNat - 48)
  else if 97 ≤ c ∧ c ≤ 102 then some (c.toNat - 87)
  else if 65 ≤ c ∧ c ≤ 70 then some (c.toNat - 55)
  else none

/-- The number that a run of digits in base sixteen stands for. -/
def ofHex? (s : Text) : Option Nat :=
  s.foldl (fun value c => do return (← value) * 16 + (← hexValue? c)) (some 0)

end Text

end InterpTree
