import InterpTree.Text

/-!
The characters of a text. A text that is not well-formed UTF-8 still falls into characters: a byte
that starts no well-formed sequence is a character of its own, and stands for nothing.
-/

namespace InterpTree

namespace Text

/-- Whether a byte continues a sequence of UTF-8. -/
def continues (c : UInt8) : Bool := 128 ≤ c && c ≤ 191

/-- How many of the bytes after `lead` belong to the same character: none unless they complete a
well-formed sequence, which is neither overlong, nor a surrogate, nor above U+10FFFF. -/
def trailing (lead : UInt8) : Text → Nat
  | [] => 0
  | b :: s =>
    if 194 ≤ lead ∧ lead ≤ 223 then
      if continues b then 1 else 0
    else
      match s with
      | [] => 0
      | c :: s =>
        if 224 ≤ lead ∧ lead ≤ 239 then
          if continues b && continues c && (lead != 224 || 160 ≤ b) && (lead != 237 || b ≤ 159)
          then 2 else 0
        else
          match s with
          | [] => 0
          | d :: _ =>
            if 240 ≤ lead ∧ lead ≤ 244 then
              if continues b && continues c && continues d && (lead != 240 || 144 ≤ b) &&
                (lead != 244 || b ≤ 143) then 3 else 0
            else 0

/-- The characters of a text, each as its bytes. -/
def runes : Text → List Text
  | [] => []
  | c :: s => (c :: s.take (trailing c s)) :: runes (s.drop (trailing c s))
termination_by s => s.length
decreasing_by simp only [List.length_drop, List.length_cons]; omega

/-- The code point that a character stands for, if it is well-formed. -/
def codePoint? : Text → Option Nat
  | [a] => if a < 128 then some a.toNat else none
  | [a, b] => some ((a.toNat % 32) * 64 + b.toNat % 64)
  | [a, b, c] => some ((a.toNat % 16) * 4096 + (b.toNat % 64) * 64 + c.toNat % 64)
  | [a, b, c, d] =>
    some ((a.toNat % 8) * 262144 + (b.toNat % 64) * 4096 + (c.toNat % 64) * 64 + d.toNat % 64)
  | _ => none

/-- A code point in UTF-8. -/
def ofCodePoint (n : Nat) : Text :=
  if n < 128 then [n.toUInt8]
  else if n < 2048 then [(192 + n / 64).toUInt8, (128 + n % 64).toUInt8]
  else if n < 65536 then
    [(224 + n / 4096).toUInt8, (128 + n / 64 % 64).toUInt8, (128 + n % 64).toUInt8]
  else
    [(240 + n / 262144).toUInt8, (128 + n / 4096 % 64).toUInt8, (128 + n / 64 % 64).toUInt8,
      (128 + n % 64).toUInt8]

/-- Whether every character of a text is well-formed. -/
def wellFormed (s : Text) : Bool := (runes s).all fun r => (codePoint? r).isSome

/-- White space: the blanks of Latin-1 and the space separators and line separators beyond it. -/
def isWhite (n : Nat) : Bool :=
  (9 ≤ n && n ≤ 13) || n == 32 || n == 133 || n == 160 || n == 5760 || (8192 ≤ n && n ≤ 8202) ||
    n == 8232 || n == 8233 || n == 8239 || n == 8287 || n == 12288

/-- Whether a character is white space. -/
def isWhiteRune (r : Text) : Bool := (codePoint? r).any isWhite

/-- A text without the white space at its two ends. -/
def trim (s : Text) : Text :=
  ((((runes s).dropWhile isWhiteRune).reverse.dropWhile isWhiteRune).reverse).flatten

/-- The capitals beyond ASCII whose small letters have another length in UTF-8, with those. -/
def unevenCapitals : List (Nat × Nat) := [
  (0x130, 0x69), (0x23A, 0x2C65), (0x23E, 0x2C66), (0x1E9E, 0xDF), (0x2126, 0x3C9), (0x212A, 0x6B),
  (0x212B, 0xE5), (0x2C62, 0x26B), (0x2C64, 0x27D), (0x2C6D, 0x251), (0x2C6E, 0x271),
  (0x2C6F, 0x250), (0x2C70, 0x252), (0x2C7E, 0x23F), (0x2C7F, 0x240), (0xA78D, 0x265),
  (0xA7AA, 0x266), (0xA7AB, 0x25C), (0xA7AC, 0x261), (0xA7AD, 0x26C), (0xA7AE, 0x26A),
  (0xA7B0, 0x29E), (0xA7B1, 0x287), (0xA7B2, 0x29D), (0xA7C5, 0x282), (0xA7CB, 0x264),
  (0xA7DC, 0x19B)]

/-- What stands for a byte that belongs to no well-formed character. -/
def replacement : Text := ofCodePoint 0xFFFD

/-- The characters of a text as code points. A byte that belongs to no well-formed character stands
for the replacement character. -/
def characters (s : Text) : List Char :=
  (runes s).map fun r => Char.ofNat ((codePoint? r).getD 0xFFFD)

/-- The value of a character as a digit in a base up to sixteen. -/
def digitIn? (base : Nat) (c : Char) : Option Nat :=
  if c.toNat < 128 then (hexValue? c.toNat.toUInt8).filter (· < base) else none

/-- The text that characters make up. -/
def ofCharacters (cs : List Char) : Text := ofString (String.ofList cs)

/-- The lower case of a character, as far as a comparison with an ASCII word can tell: what counts
of the characters beyond ASCII is how many bytes they have. -/
def lowerRune (r : Text) : Text :=
  match codePoint? r with
  | none => replacement
  | some n =>
    if 65 ≤ n ∧ n ≤ 90 then [(n + 32).toUInt8]
    else ((unevenCapitals.lookup n).map ofCodePoint).getD r

/-- A text in lower case, for comparison with ASCII words. -/
def lower (s : Text) : Text := ((runes s).map lowerRune).flatten

end Text

end InterpTree
