/-!
Patterns of text. A pattern fits some stretches of a text, and occurs in a text if it fits one of
its stretches, be it empty. Matching keeps the set of all places that a part of the pattern can end
at, so it never turns back, and how greedy a repetition is makes no difference.
-/

namespace InterpTree

/-! ### Groups of characters -/

/-- The characters in some ranges of code points, both ends included. -/
structure CharRanges where
  ranges : List (Nat × Nat)
  /-- Whether the cases of a letter count as one. -/
  folded : Bool := false
  /-- Whether it is the characters outside the ranges that are meant. -/
  negated : Bool := false
deriving DecidableEq

/-- The characters that differ from an ASCII character in case only. -/
def otherCases (c : Char) : List Char :=
  let swapped := if c.isLower then [c.toUpper] else if c.isUpper then [c.toLower] else []
  let beyond :=
    if c = 'k' ∨ c = 'K' then ['\u212A'] else if c = 's' ∨ c = 'S' then ['\u017F'] else []
  swapped ++ beyond

namespace CharRanges

def contains (r : CharRanges) (c : Char) : Bool :=
  let inside (c : Char) : Bool := r.ranges.any fun (low, high) => low ≤ c.toNat && c.toNat ≤ high
  (inside c || (r.folded && (otherCases c).any inside)) != r.negated

end CharRanges

/-- A group of characters: those that one of its parts contains, or those that none does. -/
structure CharGroup where
  parts : List CharRanges
  negated : Bool := false
deriving DecidableEq

namespace CharGroup

def contains (g : CharGroup) (c : Char) : Bool := g.parts.any (·.contains c) != g.negated

/-- The group of one code point. -/
def single (folded : Bool) (n : Nat) : CharGroup := ⟨[{ ranges := [(n, n)], folded }], false⟩

/-- Every character. -/
def all : CharGroup := ⟨[], true⟩

/-- Every character of a line. -/
def line : CharGroup := ⟨[{ ranges := [(10, 10)] }], true⟩

end CharGroup

/-! ### Patterns -/

/-- A property of a place between characters. -/
inductive Edge
  | textStart
  | textEnd
  | lineStart
  | lineEnd
  /-- A word starts or ends. -/
  | word
  | notWord
deriving DecidableEq

/-- A pattern of text. -/
inductive Pattern
  | empty
  | one (group : CharGroup)
  | edge (e : Edge)
  | sequence (first second : Pattern)
  | choice (first second : Pattern)
  /-- At least `least` times, and at most `most?` times if there is a bound. -/
  | repeated (p : Pattern) (least : Nat) (most? : Option Nat)
deriving DecidableEq

/-- A place in a text: the character before it, if there is one, and what follows. -/
structure Place where
  before? : Option Char
  rest : List Char
deriving DecidableEq

namespace Place

def isWordChar (c : Char) : Bool := c.isAlphanum || c = '_'

/-- Whether a place has a property. -/
def has (p : Place) (e : Edge) : Bool :=
  let atWord := p.before?.any isWordChar != p.rest.head?.any isWordChar
  match e with
  | .textStart => p.before?.isNone
  | .textEnd => p.rest.isEmpty
  | .lineStart => p.before?.all (· = '\n')
  | .lineEnd => p.rest.head?.all (· = '\n')
  | .word => atWord
  | .notWord => !atWord

/-- The place after a character of a group. -/
def after? (p : Place) (g : CharGroup) : Option Place :=
  match p.rest with
  | [] => none
  | c :: rest => if g.contains c then some ⟨some c, rest⟩ else none

/-- The places of a text from one on. -/
def onward (before? : Option Char) : List Char → List Place
  | [] => [⟨before?, []⟩]
  | c :: rest => ⟨before?, c :: rest⟩ :: onward (some c) rest

end Place

namespace Pattern

/-- The places that up to `rounds` steps lead to. -/
def spread (step : List Place → List Place) : Nat → List Place → List Place
  | 0, places => places
  | rounds + 1, places => spread step rounds (places ++ step places).eraseDups

/-- How many rounds lead from some places to the end of the text, whatever the step. -/
def enough (places : List Place) : Nat := (places.map fun p => p.rest.length).foldl max 0 + 1

/-- The places that a pattern can end at if it starts at one of `places`. -/
def ends : Pattern → List Place → List Place
  | .empty, places => places
  | .one g, places => places.filterMap fun p => p.after? g
  | .edge e, places => places.filter fun p => p.has e
  | .sequence p q, places => q.ends (p.ends places)
  | .choice p q, places => (p.ends places ++ q.ends places).eraseDups
  | .repeated p least most?, places =>
    let reached := Nat.repeat p.ends least places
    spread p.ends ((most?.map (· - least)).getD (enough reached)) reached

/-- Whether a pattern fits some stretch of a text. -/
def occursIn (p : Pattern) (text : List Char) : Bool :=
  !(p.ends (Place.onward none text)).isEmpty

/-- Patterns one after the other. -/
def sequenceOf : List Pattern → Pattern
  | [] => .empty
  | [p] => p
  | p :: ps => .sequence p (sequenceOf ps)

/-- Whether bounds of repetitions, multiplied along each path into the pattern, stay within a limit.
A pattern that is repeated no times counts for nothing. -/
def repeatsWithin : Nat → Pattern → Bool
  | limit, .sequence p q => repeatsWithin limit p && repeatsWithin limit q
  | limit, .choice p q => repeatsWithin limit p && repeatsWithin limit q
  | limit, .repeated p least most? =>
    let bound := most?.getD least
    most? == some 0 || (bound ≤ limit && repeatsWithin (limit / max bound 1) p)
  | _, _ => true

end Pattern

end InterpTree
