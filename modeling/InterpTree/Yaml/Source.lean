import InterpTree.Text.Rune

/-!
The characters of a document. A document is written in UTF-8, or in UTF-16 if it starts with a byte
order mark that says so. A carriage return, with or without a line feed, counts as a line feed.
-/

namespace InterpTree

namespace Yaml

/-- The characters of a text in UTF-8, if it is well-formed. -/
def ofUtf8? (s : Text) : Option (List Char) :=
  (Text.runes s).mapM fun r => (Text.codePoint? r).map Char.ofNat

/-- The units of 16 bits that bytes make up, with the byte of greater weight first or last. -/
def units? (bigEndian : Bool) : Text → Option (List Nat)
  | [] => some []
  | a :: b :: s => do
    let unit := if bigEndian then a.toNat * 256 + b.toNat else b.toNat * 256 + a.toNat
    return unit :: (← units? bigEndian s)
  | [_] => none

/-- The characters that units of 16 bits stand for, if the surrogates among them come in pairs. -/
def ofUnits? : List Nat → Option (List Char)
  | [] => some []
  | u :: us =>
    if u < 0xD800 || 0xDFFF < u then do return Char.ofNat u :: (← ofUnits? us)
    else if 0xDC00 ≤ u then none
    else
      match us with
      | [] => none
      | v :: us =>
        if 0xDC00 ≤ v && v ≤ 0xDFFF then do
          return Char.ofNat (0x10000 + (u - 0xD800) * 1024 + (v - 0xDC00)) :: (← ofUnits? us)
        else none

/-- The characters of a text in the encoding that it starts by telling. -/
def decode? (s : Text) : Option (List Char) :=
  if s.take 2 = [0xFF, 0xFE] then (units? false (s.drop 2)).bind ofUnits?
  else if s.take 2 = [0xFE, 0xFF] then (units? true (s.drop 2)).bind ofUnits?
  else if s.take 3 = [0xEF, 0xBB, 0xBF] then ofUtf8? (s.drop 3)
  else ofUtf8? s

/-- Whether a character may stand in a document. -/
def isAllowed (c : Char) : Bool :=
  let n := c.toNat
  n = 9 || n = 10 || n = 13 || (32 ≤ n && n ≤ 126) || n = 0x85 || (0xA0 ≤ n && n ≤ 0xD7FF) ||
    (0xE000 ≤ n && n ≤ 0xFFFD) || 0x10000 ≤ n

/-- The characters with a line feed for each carriage return and for each pair of the two. Other
line breaks stay what they are. -/
def unifyReturns : List Char → List Char
  | [] => []
  | '\r' :: '\n' :: s => '\n' :: unifyReturns s
  | c :: s => (if c = '\r' then '\n' else c) :: unifyReturns s

/-- The characters of a document, unless one of them is not allowed. -/
def characters? (s : Text) : Option (List Char) := do
  let cs ← decode? s
  if cs.all isAllowed then some (unifyReturns cs) else none

end Yaml

end InterpTree
