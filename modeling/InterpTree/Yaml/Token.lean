import InterpTree.Yaml.Property

/-!
Tokens of a document. Blocks show by columns only, so a line that stands further right or left than
the ones before it opens or closes blocks; and a word turns out to be a key only at the colon after
it, so some tokens are put in front of others that are already known.
-/

namespace InterpTree

namespace Yaml

inductive Token
  /-- The end of the text. -/
  | finish
  | directive (d : Directive)
  | documentStart
  | documentEnd
  | blockList
  | blockMap
  | blockEnd
  | openList
  | closeList
  | openMap
  | closeMap
  | dash
  | comma
  | key
  | value
  | alias (name : Text)
  | anchor (name : Text)
  | tag (t : Tagged)
  | scalar (plain : Bool) (text : Text)
deriving DecidableEq

/-- A token that is a key if a colon follows it. In a block where the next key has to stand it is
`required`. While it is `awaited` the token is not taken before that is known. -/
structure PossibleKey where
  required : Bool
  awaited : Bool := true
  /-- How many tokens come before it. -/
  number : Nat
  line : Nat
  column : Nat
  index : Nat
deriving DecidableEq

/-- What may turn out to be a key in a flow collection, or in the blocks around all of these. -/
structure Level where
  key : Option PossibleKey := none
  /-- The number of the bracket that opens the collection, as long as nothing in it could have been
  a key. -/
  bracket : Option Nat := none
deriving DecidableEq

/-- A level after a collection inside it whose bracket is told only if nothing in the collection
could have been a key. Such a collection is not awaited as a key. -/
def Level.after (inner : Option Nat) (l : Level) : Level :=
  { l with
    key := l.key.map fun k =>
      if inner = some k.number then { k with awaited := false } else k }

/-- What is known of a document so far. -/
structure Scanner where
  cursor : Cursor
  /-- The tokens that are known and not yet taken. -/
  tokens : List Token := []
  /-- How many tokens are taken. -/
  taken : Nat := 0
  /-- How many columns the nodes of the innermost block are away from the margin, and the same for
  the blocks around it; the outermost nodes belong to no block. -/
  blocks : List Nat := []
  /-- The innermost flow collection, or the blocks if there is none. -/
  level : Level := {}
  /-- What is around it. -/
  outer : List Level := []
  /-- Whether a key may start here. -/
  keyAllowed : Bool := true
  /-- Whether the text starts with a byte order mark. Then the first character of each line is
  passed over as if it were one, until the text is almost at its end. -/
  marked : Bool := false
deriving DecidableEq

namespace Scanner

def inFlow (s : Scanner) : Bool := !s.outer.isEmpty

/-- The least column for the nodes inside the innermost block. -/
def margin (s : Scanner) : Nat :=
  match s.blocks with
  | [] => 0
  | column :: _ => column + 1

/-- How far a key may be away from its colon. -/
def keyReach : Nat := 1024

/-- Whether a key is still within reach. -/
def reaches (s : Scanner) (k : PossibleKey) : Bool :=
  k.line = s.cursor.line && s.cursor.index ≤ k.index + keyReach

def push (t : Token) (s : Scanner) : Scanner := { s with tokens := s.tokens ++ [t] }

/-- Puts a token in front of the one with a number, or at the end if that one is already taken. -/
def insert (number : Nat) (t : Token) (s : Scanner) : Scanner :=
  if number < s.taken then s.push t
  else { s with tokens := s.tokens.insertIdx (number - s.taken) t }

/-- What may have been a key is none. -/
def dropKey? (s : Scanner) : Option Scanner :=
  if s.level.key.any PossibleKey.required then none
  else some { s with level := { s.level with key := none } }

/-- What comes next may be a key. -/
def saveKey? (s : Scanner) : Option Scanner :=
  if s.keyAllowed then do
    let s ← s.dropKey?
    let c := s.cursor
    let required := !s.inFlow && s.blocks.head? = some c.column
    let number := s.taken + s.tokens.length
    let key : PossibleKey :=
      { required, number, line := c.line, column := c.column, index := c.index }
    return { s with level := { key } }
  else some s

/-- Opens a block, if the column is further right than that of the innermost one. -/
def openBlock (column : Nat) (put : Token → Scanner → Scanner) (t : Token) (s : Scanner) :
    Scanner :=
  if s.inFlow || column < s.margin then s else put t { s with blocks := column :: s.blocks }

/-- Closes the blocks that stand further right than a column. -/
def closeBlocks (column : Nat) : List Nat → Scanner → Scanner
  | block :: blocks, s =>
    if column < block then closeBlocks column blocks ({ s with blocks } |>.push .blockEnd) else s
  | [], s => s

/-- Closes all blocks. -/
def closeAllBlocks (s : Scanner) : Scanner :=
  { s with blocks := [], tokens := s.tokens ++ s.blocks.map fun _ => .blockEnd }

/-! ### The way to a token -/

/-- Passes over blanks, comments and line breaks up to the next token; `fuel` bounds how many lines
there are. Where a key may start, tabs are not passed over. -/
def toToken : Nat → Scanner → Scanner
  | 0, s => s
  | fuel + 1, s =>
    let c := s.cursor
    let c := if s.marked && c.column = 0 then c.skip 1 else c
    let tabs := s.inFlow || !s.keyAllowed
    let c := c.skipWhile fun d => d = ' ' || (tabs && d = '\t')
    let c := if c.head? = some '#' then c.skipComments c.size else c
    if c.atBreak then
      toToken fuel { s with cursor := c.nextLine, keyAllowed := s.keyAllowed || !s.inFlow }
    else { s with cursor := c }

/-! ### One token -/

/-- Takes a mark of `length` characters as a token. -/
def mark (t : Token) (length : Nat) (s : Scanner) : Scanner :=
  { s with cursor := s.cursor.skip length } |>.push t

/-- A border of documents, or the end of the text. -/
def border? (t : Token) (length : Nat) (s : Scanner) : Option Scanner := do
  let s ← s.closeAllBlocks.dropKey?
  return { s with keyAllowed := false }.mark t length

def directive? (s : Scanner) : Option Scanner := do
  let s ← s.closeAllBlocks.dropKey?
  let (d, cursor) ← Yaml.directive? (s.cursor.skip 1)
  return { s with keyAllowed := false, cursor }.push (.directive d)

/-- The start of a flow collection. -/
def openFlow? (t : Token) (s : Scanner) : Option Scanner := do
  let s ← s.saveKey?
  let bracket := s.taken + s.tokens.length
  return { s with level := { bracket }, outer := s.level :: s.outer, keyAllowed := true }.mark t 1

/-- The end of a flow collection. -/
def closeFlow? (t : Token) (s : Scanner) : Option Scanner := do
  let s ← s.dropKey?
  let s :=
    match s.outer with
    | [] => s
    | level :: outer => { s with level := level.after s.level.bracket, outer }
  return { s with keyAllowed := false }.mark t 1

def comma? (s : Scanner) : Option Scanner := do
  let s ← s.dropKey?
  return { s with keyAllowed := true }.mark .comma 1

/-- The dash of an item of a block list. -/
def dash? (s : Scanner) : Option Scanner := do
  if !s.inFlow && !s.keyAllowed then none
  let s ← (s.openBlock s.cursor.column push .blockList).dropKey?
  return { s with keyAllowed := true }.mark .dash 1

/-- The mark of a key that needs no colon on its line. -/
def key? (s : Scanner) : Option Scanner := do
  if !s.inFlow && !s.keyAllowed then none
  let s ← (s.openBlock s.cursor.column push .blockMap).dropKey?
  return { s with keyAllowed := !s.inFlow }.mark .key 1

/-- The colon before a value. -/
def value? (s : Scanner) : Option Scanner := do
  match s.level.key with
  | some k =>
    if s.reaches k then
      let s := (s.insert k.number .key).openBlock k.column (insert k.number) .blockMap
      return { s with level := { s.level with key := none }, keyAllowed := false }.mark .value 1
    else if k.required then none
  | none => pure ()
  if !s.inFlow && !s.keyAllowed then none
  let s := s.openBlock s.cursor.column push .blockMap
  return { s with keyAllowed := !s.inFlow }.mark .value 1

/-- A token that is read by `read` after its mark, and may be a key. -/
def node? {α : Type} (read : Cursor → Option (α × Cursor)) (t : α → Token) (s : Scanner) :
    Option Scanner := do
  let s ← s.saveKey?
  let (a, cursor) ← read s.cursor
  return { s with keyAllowed := false, cursor }.push (t a)

def quoted? (single : Bool) (s : Scanner) : Option Scanner :=
  s.node? (fun c => Yaml.quoted? single (c.size + 1) (c.skip 1))
    fun cs => .scalar false (Text.ofCharacters cs)

def blockScalar? (literal : Bool) (s : Scanner) : Option Scanner := do
  let s ← s.dropKey?
  let (cs, cursor) ← Yaml.block? literal s.margin (s.cursor.skip 1)
  return { s with keyAllowed := true, cursor }.push (.scalar false (Text.ofCharacters cs))

/-- A plain scalar. After a line break at its end a key may start. -/
def plain? (s : Scanner) : Option Scanner := do
  let s ← s.saveKey?
  let (cs, broken, cursor) ←
    Yaml.plain? s.inFlow s.margin (s.cursor.size + 1) {} s.cursor
  return { s with keyAllowed := broken, cursor }.push (.scalar true (Text.ofCharacters cs))

/-- The characters that may not start a plain scalar. -/
def indicators : List Char :=
  ['-', '?', ':', ',', '[', ']', '{', '}', '#', '&', '*', '!', '|', '>', '\'', '"', '%', '@',
    '\x60']

/-- Whether a plain scalar starts with a character before some others. -/
def startsPlain (flow : Bool) (d : Char) (cs : List Char) : Bool :=
  !(isBlank d || isBreak d || indicators.contains d) || (d = '-' && !cs.head?.any isBlank) ||
    (!flow && (d = '?' || d = ':') && !atGap cs)

/-- A token inside a document, which starts with a character before some others. -/
def content? (d : Char) (cs : List Char) (s : Scanner) : Option Scanner :=
  let gap := s.inFlow || atGap cs
  if d = '[' then s.openFlow? .openList
  else if d = '{' then s.openFlow? .openMap
  else if d = ']' then s.closeFlow? .closeList
  else if d = '}' then s.closeFlow? .closeMap
  else if d = ',' then s.comma?
  else if d = '-' && atGap cs then s.dash?
  else if d = '?' && gap then s.key?
  else if d = ':' && gap then s.value?
  else if d = '*' then s.node? (fun c => anchorName? (c.skip 1)) .alias
  else if d = '&' then s.node? (fun c => anchorName? (c.skip 1)) .anchor
  else if d = '!' then s.node? tag? .tag
  else if (d = '|' || d = '>') && !s.inFlow then s.blockScalar? (d = '|')
  else if d = '\'' || d = '"' then s.quoted? (d = '\'')
  else if startsPlain s.inFlow d cs then s.plain?
  else none

/-- Whether a text is almost at its end. -/
def atLastFew (cs : List Char) : Bool := (cs.drop 3).isEmpty

/-- Scans for one more token. A comment on its line belongs to it, but not to a dash. -/
def fetch? (s : Scanner) : Option Scanner := do
  let s := s.toToken (s.cursor.size + 1)
  let s := { s with marked := s.marked && !atLastFew s.cursor.rest }
  let s := if s.inFlow then s else s.closeBlocks s.cursor.column s.blocks
  match s.cursor.rest with
  | [] => s.border? .finish 0
  | d :: cs =>
    if s.cursor.column = 0 && d = '%' then s.directive?
    else if s.cursor.atMarker '-' then s.border? .documentStart 3
    else if s.cursor.atMarker '.' then s.border? .documentEnd 3
    else
      let s ← s.content? d cs
      if s.tokens.getLast? = some .dash then return s
      else return { s with cursor := s.cursor.skipLineComment }

/-! ### Taking tokens -/

/-- Whether more has to be known before the next token can be taken: there are three tokens at hand,
and the first is no longer waiting for a colon. -/
def isShort (s : Scanner) : Option Bool :=
  if s.tokens.length < 3 then some true
  else
    let isFirst (k : PossibleKey) : Bool := k.awaited && k.number = s.taken
    match (s.level :: s.outer).findSome? fun l => l.key.filter isFirst with
    | none => some false
    | some k => if s.reaches k then some true else if k.required then none else some false

/-- Scans until the next token can be taken; `fuel` bounds how many tokens there are. -/
def ready? : Nat → Scanner → Option Scanner
  | 0, s => some s
  | fuel + 1, s => do if ← s.isShort then ready? fuel (← s.fetch?) else return s

/-- The next token, and what is known then. -/
def peek? (s : Scanner) : Option (Token × Scanner) := do
  let s ← s.ready? (s.cursor.size + 8)
  return (← s.tokens.head?, s)

/-- What is left after the next token. -/
def drop (s : Scanner) : Scanner := { s with tokens := s.tokens.drop 1, taken := s.taken + 1 }

/-- The start of a document. -/
def ofCharacters (cs : List Char) : Scanner :=
  { cursor := .ofCharacters cs, marked := cs.head? = some (Char.ofNat 0xFEFF) }

end Scanner

end Yaml

end InterpTree
