import InterpTree.Yaml.Cursor

/-!
Scalars of a document: plain ones, single-quoted and double-quoted ones, which fold the line breaks
inside them, and block scalars, whose lines are told by their indentation.
-/

namespace InterpTree

namespace Yaml

/-! ### Gaps -/

/-- What stands between two words of a scalar: blanks, or line breaks with blanks around them. -/
structure Gap where
  blanks : List Char := []
  breaks : List Char := []
deriving DecidableEq

namespace Gap

/-- What stands for a gap. A line feed alone is a space, and of more line breaks it is lost; the
other line breaks stay. -/
def text (g : Gap) : List Char :=
  match g.breaks with
  | [] => g.blanks
  | '\n' :: [] => [' ']
  | '\n' :: more => more
  | breaks => breaks

/-- Passes over a gap. After a line break, tabs before the column `margin` are refused; `fuel`
bounds how many characters there are. -/
def scan? (margin : Nat) : Nat → Gap → Cursor → Option (Gap × Cursor)
  | 0, g, c => some (g, c)
  | fuel + 1, g, c =>
    match c.head? with
    | none => some (g, c)
    | some d =>
      if isBreak d then
        scan? margin fuel { g with breaks := g.breaks ++ [breakText d] } c.nextLine
      else if !isBlank d then some (g, c)
      else if g.breaks.isEmpty then
        scan? margin fuel { g with blanks := g.blanks ++ [d] } (c.skip 1)
      else if d = '\t' && c.column < margin then none
      else scan? margin fuel g (c.skip 1)

/-- Passes over a gap in which tabs are allowed anywhere. -/
def scan (c : Cursor) : Gap × Cursor := (scan? 0 c.size {} c).getD ({}, c)

end Gap

/-! ### Plain scalars -/

/-- The characters that end a plain scalar inside a flow collection. -/
def isFlowMark (c : Char) : Bool := [',', '?', '[', ']', '{', '}'].contains c

/-- How many characters of a plain scalar follow up to the next gap. -/
def wordLength (flow : Bool) : List Char → Nat
  | [] => 0
  | c :: cs =>
    if isBlank c || isBreak c || (c = ':' && atGap cs) || (flow && isFlowMark c) then 0
    else wordLength flow cs + 1

/-- The rest of a plain scalar after the gap `g`. A `#` at the start of a word ends it, and so does
a border of documents. Also tells whether the scalar was ended by a line break. -/
def plain? (flow : Bool) (margin : Nat) :
    Nat → Gap → Cursor → Option (List Char × Bool × Cursor)
  | 0, _, _ => none
  | fuel + 1, g, c =>
    let length := wordLength flow c.rest
    if c.atBorder || c.head? = some '#' || length = 0 then some ([], !g.breaks.isEmpty, c)
    else do
      let word := c.rest.take length
      let c := c.skip length
      let (next, after) ← Gap.scan? margin c.size {} c
      let (more, broken, last) ←
        if next = {} || (!flow && after.column < margin) then
          some ([], !next.breaks.isEmpty, after)
        else plain? flow margin fuel next after
      return (g.text ++ word ++ more, broken, last)

/-! ### Quoted scalars -/

/-- The number that `width` digits in base sixteen stand for. -/
def hexNumber? (width : Nat) (cs : List Char) : Option Nat :=
  if (cs.take width).length < width then none
  else
    (cs.take width).foldl
      (fun value c => do return (← value) * 16 + (← Text.digitIn? 16 c)) (some 0)

/-- The character of a number, if there is one. -/
def ofNumber? (n : Nat) : Option Char :=
  if (0xD800 ≤ n && n ≤ 0xDFFF) || 0x10FFFF < n then none else some (Char.ofNat n)

/-- The numbers of the characters that escapes of one letter stand for. -/
def shortEscapes : List (Char × Nat) :=
  [('0', 0), ('a', 7), ('b', 8), ('t', 9), ('\t', 9), ('n', 10), ('v', 11), ('f', 12), ('r', 13),
    ('e', 27), (' ', 32), ('"', 34), ('\'', 39), ('\\', 92), ('N', 0x85), ('_', 0xA0),
    ('L', 0x2028), ('P', 0x2029)]

/-- How many digits an escape by number has. -/
def numberWidths : List (Char × Nat) := [('x', 2), ('u', 4), ('U', 8)]

/-- What an escape stands for, by what follows the backslash, and how long that is. -/
def escape? : List Char → Option (Char × Nat)
  | [] => none
  | c :: cs =>
    match shortEscapes.lookup c with
    | some n => some (Char.ofNat n, 1)
    | none => do
      let width ← numberWidths.lookup c
      return (← ofNumber? (← hexNumber? width cs), 1 + width)

/-- The rest of a quoted scalar. In single quotes a quote is written twice; in double quotes a
backslash starts an escape, or joins two lines. -/
def quoted? (single : Bool) : Nat → Cursor → Option (List Char × Cursor)
  | 0, _ => none
  | fuel + 1, c =>
    if c.atBorder then none
    else
      match c.rest with
      | [] => none
      | d :: cs =>
        let goOn (read : List Char) (after : Cursor) : Option (List Char × Cursor) := do
          let (more, last) ← quoted? single fuel after
          return (read ++ more, last)
        if isBlank d || isBreak d then
          let (g, after) := Gap.scan c
          goOn g.text after
        else if single && d = '\'' then
          if cs.head? = some '\'' then goOn [d] (c.skip 2) else some ([], c.skip 1)
        else if !single && d = '"' then some ([], c.skip 1)
        else if !single && d = '\\' then
          if cs.head?.any isBreak then
            let (g, after) := Gap.scan (c.skip 1).nextLine
            goOn g.breaks after
          else do
            let (value, length) ← escape? cs
            goOn [value] (c.skip (1 + length))
        else goOn [d] (c.skip 1)

/-! ### Block scalars -/

/-- What becomes of the line breaks at the end of a block scalar: all are lost, one is kept, or all
are kept. -/
inductive Chomping
  | strip
  | clip
  | keep
deriving DecidableEq

/-- The first line of a block scalar: whether line breaks stand for themselves, what becomes of
those at the end, and by how much the lines are indented, if it says so. -/
structure BlockHeader where
  literal : Bool
  chomping : Chomping := .clip
  indent : Option Nat := none
deriving DecidableEq

namespace BlockHeader

/-- The chomping that a character asks for. -/
def chomping? (c : Char) : Option Chomping :=
  if c = '+' then some .keep else if c = '-' then some .strip else none

/-- The indentation that a character asks for. -/
def indent? (c : Char) : Option Nat :=
  if '1' ≤ c && c ≤ '9' then some (c.toNat - 48) else none

/-- Takes in the indicators after the mark, each at most once and in either order, and tells how
many there are. -/
def takeIndicators (h : BlockHeader) : List Char → BlockHeader × Nat
  | c :: d :: _ =>
    match chomping? c, indent? c, chomping? d, indent? d with
    | some chomping, _, _, some n => ({ h with chomping, indent := some n }, 2)
    | _, some n, some chomping, _ => ({ h with chomping, indent := some n }, 2)
    | some chomping, _, _, _ => ({ h with chomping }, 1)
    | _, some n, _, _ => ({ h with indent := some n }, 1)
    | _, _, _, _ => (h, 0)
  | [c] =>
    match chomping? c, indent? c with
    | some chomping, _ => ({ h with chomping }, 1)
    | _, some n => ({ h with indent := some n }, 1)
    | _, _ => (h, 0)
  | [] => (h, 0)

/-- Reads a header after its mark, up to the start of the next line. A comment may follow the
indicators. -/
def read? (literal : Bool) (c : Cursor) : Option (BlockHeader × Cursor) :=
  let (h, length) := takeIndicators { literal } c.rest
  let c := (c.skip length).skipBlanks
  let c := if c.head? = some '#' then c.toLineEnd else c
  if c.atEnd then some (h, c) else if c.atBreak then some (h, c.nextLine) else none

end BlockHeader

/-- What stands between two lines of a block scalar: the breaks of the empty lines, the widest
indentation met, and the place where the next line starts. -/
structure BlockGap where
  breaks : List Char := []
  widest : Nat := 0
  next : Cursor
deriving DecidableEq

/-- Passes over the indentation of a line and over empty lines; `fuel` bounds how many there are. Up
to `indent` spaces are indentation, or any number if that is not known yet; a tab among them is
refused. -/
def blockGap? (indent : Option Nat) : Nat → BlockGap → Option BlockGap
  | 0, _ => none
  | fuel + 1, g =>
    let spaces := (g.next.rest.takeWhile (· = ' ')).length
    let c := g.next.skip ((indent.map (min spaces)).getD spaces)
    let widest := max g.widest c.column
    if indent.all (c.column < ·) && c.head? = some '\t' then none
    else
      match c.rest with
      | d :: _ =>
        if isBreak d then blockGap? indent fuel ⟨g.breaks ++ [breakText d], widest, c.nextLine⟩
        else some ⟨g.breaks, widest, c⟩
      | [] => some ⟨g.breaks, widest, c⟩

/-- The lines of a block scalar so far, and the line break after the last of them. `blank` tells
whether that line started with a blank, and `breaks` are those of the empty lines after it. -/
structure BlockText where
  /-- The text of the lines, in reverse. -/
  text : List Char := []
  ending : Option Char := none
  blank : Bool := false
  breaks : List Char := []
deriving DecidableEq

namespace BlockText

/-- What stands for the line breaks before a further line. A line feed between two lines that start
with no blank is folded: it is a space, or lost before an empty line. -/
def joint (literal blank : Bool) (b : BlockText) : List Char :=
  let folded := !literal && !b.blank && !blank && b.ending = some '\n'
  let first : List Char :=
    if !folded then b.ending.toList else if b.breaks.isEmpty then [' '] else []
  first ++ b.breaks

/-- Adds a line. -/
def addLine (literal : Bool) (line : List Char) (ending : Option Char) (breaks : List Char)
    (b : BlockText) : BlockText :=
  let blank := line.head?.any isBlank
  let text := line.reverseAux ((b.joint literal blank).reverseAux b.text)
  { text, ending, blank, breaks }

/-- The text when no further line follows. -/
def chomp (b : BlockText) : Chomping → List Char
  | .strip => b.text.reverse
  | .clip => b.text.reverse ++ b.ending.toList
  | .keep => b.text.reverse ++ b.ending.toList ++ b.breaks

end BlockText

/-- The lines of a block scalar, as long as they stand at its indentation; `fuel` bounds how many
there are. -/
def blockLines? (literal : Bool) (indent : Nat) :
    Nat → BlockText → Cursor → Option (BlockText × Cursor)
  | 0, _, _ => none
  | fuel + 1, b, c =>
    if c.atEnd || c.column ≠ indent then some (b, c)
    else do
      let after := c.toLineEnd
      let line := c.rest.take (after.index - c.index)
      let start := if after.atBreak then after.nextLine else after
      let gap ← blockGap? (some indent) (c.size + 1) { next := start }
      let ending := after.head?.map breakText
      blockLines? literal indent fuel (b.addLine literal line ending gap.breaks) gap.next

/-- A block scalar after its mark, in a block whose nodes are indented to at least `margin`. Without
an indicator its first line tells how far its lines are indented. -/
def block? (literal : Bool) (margin : Nat) (c : Cursor) : Option (List Char × Cursor) := do
  let (h, c) ← BlockHeader.read? literal c
  let given := h.indent.map fun n => if margin = 0 then n else margin - 1 + n
  let gap ← blockGap? given (c.size + 1) { next := c }
  let indent := given.getD (max gap.widest (max margin 1))
  let (b, after) ←
    blockLines? h.literal indent (c.size + 1) { breaks := gap.breaks } gap.next
  return (b.chomp h.chomping, after)

end Yaml

end InterpTree
