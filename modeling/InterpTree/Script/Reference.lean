import InterpTree.Script.ListFormat

/-!
What substitution finds in a word: variable references and bracketed commands.
-/

namespace InterpTree

namespace Script

open Text

/-- Whether a byte continues the name of a variable: an underscore, or the Latin-1 character of
that number is a letter or a digit. -/
def isNameByte (c : UInt8) : Bool :=
  c = underscore || (48 ≤ c && c ≤ 57) || (65 ≤ c && c ≤ 90) || (97 ≤ c && c ≤ 122) ||
    c = 170 || c = 181 || c = 186 || (192 ≤ c && c ≤ 214) || (216 ≤ c && c ≤ 246) || 248 ≤ c

/-- The variable that a dollar sign refers to, and what follows the reference; the name is empty
if the dollar sign stands for itself. -/
def variableName (s : Text) : Text × Text :=
  match s with
  | [] => ([], [])
  | c :: t =>
    if c = openBrace then
      match cutFirst closeBrace t with
      | none => ([], s)
      | some (name, rest) => (name, rest)
    else (s.takeWhile isNameByte, s.dropWhile isNameByte)

/-- What is between an open bracket and the bracket that matches it, and what follows. Brackets
inside braces do not count; `depth` brackets and `braces` braces are open besides the first
bracket, and `seen` is the text since then, reversed. -/
def matchBracket (depth braces : Nat) (seen : Text) : Text → Option (Text × Text)
  | [] => none
  | c :: s =>
    if c = backslash then
      match s with
      | [] => none
      | d :: s => matchBracket depth braces (d :: c :: seen) s
    else if c = openBrace then matchBracket depth (braces + 1) (c :: seen) s
    else if c = closeBrace then matchBracket depth (braces - 1) (c :: seen) s
    else if c = openBracket && braces = 0 then matchBracket (depth + 1) braces (c :: seen) s
    else if c = closeBracket && braces = 0 then
      match depth with
      | 0 => some (seen.reverse, s)
      | depth + 1 => matchBracket depth braces (c :: seen) s
    else matchBracket depth braces (c :: seen) s

/-- What follows a variable reference is no longer than the text after the dollar sign. -/
theorem length_of_variableName {s name rest : Text} (h : variableName s = (name, rest)) :
    rest.length ≤ s.length := by
  unfold variableName at h
  split at h
  · simp_all
  · rename_i c t
    split at h
    · split at h
      · simp_all
      · rename_i heq
        have hcut := length_of_cutFirst heq
        simp only [Prod.mk.injEq] at h
        rw [← h.2]
        simp only [List.length_cons]
        omega
    · simp only [Prod.mk.injEq] at h
      rw [← h.2]
      exact (List.dropWhile_sublist isNameByte).length_le

/-- What follows a bracketed command is shorter than the text after the open bracket. -/
theorem length_of_matchBracket {depth braces : Nat} {seen s inner rest : Text}
    (h : matchBracket depth braces seen s = some (inner, rest)) : rest.length < s.length := by
  fun_induction matchBracket depth braces seen s <;> grind

/-- A piece of a word, as substitution sees it. -/
inductive Piece
  /-- Bytes that stand for themselves. -/
  | plain (bytes : Text)
  /-- A reference to a variable. -/
  | reference (name : Text)
  /-- A bracketed script, to be replaced by its value. -/
  | bracketed (source : Text)
  /-- An open bracket that nothing closes. -/
  | unclosed
deriving DecidableEq

/-- The pieces of a word, in order. Nothing after an open bracket without its match counts. -/
def pieces (s : Text) : List Piece :=
  match s with
  | [] => []
  | c :: t =>
    if c = backslash then
      match t with
      | [] => [.plain [c]]
      | d :: u => .plain (unescape d) :: pieces u
    else if c = dollar then
      match h : variableName t with
      | (name, rest) =>
        have := length_of_variableName h
        if name.isEmpty then .plain [c] :: pieces t else .reference name :: pieces rest
    else if c = openBracket then
      match h : matchBracket 0 0 [] t with
      | none => [.unclosed]
      | some (source, rest) =>
        have := length_of_matchBracket h
        .bracketed source :: pieces rest
    else .plain [c] :: pieces t
termination_by s.length
decreasing_by all_goals (simp only [List.length_cons]; omega)

end Script

end InterpTree
