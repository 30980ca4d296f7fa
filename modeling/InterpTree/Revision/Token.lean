import InterpTree.Text.Rune
import InterpTree.Text.Letter

/-!
The tokens of a revision: marks, blanks, and runs of letters or of numbers.
-/

namespace InterpTree

namespace Revision

inductive Token
  /-- The end, which a character with the number zero stands for, too. -/
  | stop
  | mark (c : Char)
  | blank (c : Char)
  | control (c : Char)
  | word (cs : List Char)
  | number (cs : List Char)
deriving DecidableEq

def Token.characters : Token → List Char
  | .stop => []
  | .mark c | .blank c | .control c => [c]
  | .word cs | .number cs => cs

def isMark (c : Char) : Bool :=
  [':', '~', '^', '.', '/', '\x7b', '\x7d', '-', '@', '\\', '?', '*', '[', '!'].contains c

def isControl (c : Char) : Bool := c.toNat < 32 || (127 ≤ c.toNat && c.toNat < 160)

def isLetter (c : Char) : Bool := Text.isLetter c.toNat

def isNumber (c : Char) : Bool := Text.isNumber c.toNat

/-- What follows a run, which swallows a character with the number zero. -/
def afterRun (p : Char → Bool) (s : List Char) : List Char :=
  let rest := s.dropWhile p
  if rest.head? = some '\x00' then rest.drop 1 else rest

theorem length_afterRun_le (p : Char → Bool) (s : List Char) :
    (afterRun p s).length ≤ s.length := by
  have h := (List.dropWhile_sublist p (l := s)).length_le
  unfold afterRun
  simp only
  split
  · rw [List.length_drop]
    omega
  · exact h

/-- The tokens of a text. A character that is of no other kind is a word. -/
def tokens : List Char → List Token
  | [] => []
  | c :: s =>
    if c = '\x00' then .stop :: tokens s
    else if isMark c then .mark c :: tokens s
    else if Text.isWhite c.toNat then .blank c :: tokens s
    else if isControl c then .control c :: tokens s
    else if isLetter c then .word (c :: s.takeWhile isLetter) :: tokens (afterRun isLetter s)
    else if isNumber c then .number (c :: s.takeWhile isNumber) :: tokens (afterRun isNumber s)
    else .word [c] :: tokens s
termination_by s => s.length
decreasing_by
  all_goals
    have := length_afterRun_le isLetter s
    have := length_afterRun_le isNumber s
    simp only [List.length_cons]
    omega

end Revision

end InterpTree
