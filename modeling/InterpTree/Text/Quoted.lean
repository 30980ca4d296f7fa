import InterpTree.Text.Rune
import InterpTree.Text.Printable

/-!
Quoted texts, as messages show names and values: between double quotes, printable characters as
they are, the usual short escapes, and every other byte or character by its number.
-/

namespace InterpTree

namespace Text

/-- A character inside double quotes. -/
def quoteRune (r : Text) : Text :=
  match codePoint? r with
  | none => r.flatMap fun c => "\\x" ++ hex 2 c.toNat
  | some n =>
    if n = 34 then "\\\""
    else if n = 92 then "\\\\"
    else if isPrintable n then r
    else if n = 7 then "\\a"
    else if n = 8 then "\\b"
    else if n = 12 then "\\f"
    else if n = 10 then "\\n"
    else if n = 13 then "\\r"
    else if n = 9 then "\\t"
    else if n = 11 then "\\v"
    else if n < 32 ∨ n = 127 then "\\x" ++ hex 2 n
    else if n < 65536 then "\\u" ++ hex 4 n
    else "\\U" ++ hex 8 n

/-- A text between double quotes, on one line and free of control characters. -/
def quoted (s : Text) : Text := quoteMark :: (runes s).flatMap quoteRune ++ [quoteMark]

end Text

end InterpTree
