import InterpTree.Yaml.Source

/-!
Places in a document. A cursor knows what is left of the document and where it stands: columns tell
where a block ends, and a key has to stand on one line with its colon.
-/

namespace InterpTree

namespace Yaml

/-- The mark of the next line, which a text takes for a line feed. -/
def nextLineMark : Char := Char.ofNat 0x85

/-- Whether a character breaks a line. The separators of lines and of paragraphs do, too. -/
def isBreak (c : Char) : Bool :=
  c = '\n' || c = nextLineMark || c.toNat = 0x2028 || c.toNat = 0x2029

/-- What a line break stands for in a text. -/
def breakText (c : Char) : Char := if c = nextLineMark then '\n' else c

def isBlank (c : Char) : Bool := c = ' ' || c = '\t'

/-- Whether a word ends here: a blank, a line break or nothing at all follows. -/
def atGap (cs : List Char) : Bool := cs.head?.all fun c => isBlank c || isBreak c

/-- A place in a document. -/
structure Cursor where
  /-- What is left of the document. -/
  rest : List Char
  /-- How many characters the document has, which bounds every walk through it. -/
  size : Nat
  line : Nat := 0
  column : Nat := 0
  /-- How many characters come before. -/
  index : Nat := 0
  /-- Whether nothing but blanks stands between here and the line break before. -/
  fresh : Bool := false
deriving DecidableEq

namespace Cursor

/-- The start of a document. -/
def ofCharacters (cs : List Char) : Cursor := { rest := cs, size := cs.length }

def head? (c : Cursor) : Option Char := c.rest.head?

def atEnd (c : Cursor) : Bool := c.rest.isEmpty

/-- Whether a line break comes next. -/
def atBreak (c : Cursor) : Bool := c.head?.any isBreak

/-- The place after `n` characters without a line break. -/
def skip (c : Cursor) (n : Nat) : Cursor :=
  { c with
    rest := c.rest.drop n
    column := c.column + n
    index := c.index + n
    fresh := c.fresh && (c.rest.take n).all isBlank }

/-- The place after a line break. -/
def nextLine (c : Cursor) : Cursor :=
  { c with
    rest := c.rest.drop 1, line := c.line + 1, column := 0, index := c.index + 1, fresh := true }

/-- The place after the characters of the line that have a property. -/
def skipWhile (c : Cursor) (p : Char → Bool) : Cursor :=
  c.skip (c.rest.takeWhile fun d => p d && !isBreak d).length

def skipBlanks (c : Cursor) : Cursor := c.skipWhile isBlank

/-- The place of the next line break. -/
def toLineEnd (c : Cursor) : Cursor := c.skipWhile fun _ => true

/-- Whether three characters of a kind at the start of a line mark the border of a document. -/
def atMarker (c : Cursor) (mark : Char) : Bool :=
  c.column = 0 && c.rest.take 3 = [mark, mark, mark] && atGap (c.rest.drop 3)

/-- Whether a document ends here or another one starts. -/
def atBorder (c : Cursor) : Bool := c.atMarker '-' || c.atMarker '.'

/-- The place after blanks and line feeds; `fuel` bounds how many lines there are. -/
def skipFeeds : Nat → Cursor → Cursor
  | 0, c => c
  | fuel + 1, c =>
    let c := c.skipBlanks
    if c.head? = some '\n' then skipFeeds fuel c.nextLine else c

/-- The place after a comment that starts here and the comments on the lines below, as long as
nothing but blanks and line feeds stands between them. -/
def skipComments : Nat → Cursor → Cursor
  | 0, c => c
  | fuel + 1, c =>
    let c := c.toLineEnd
    let next := skipFeeds c.size c
    if next.head? = some '#' then skipComments fuel next else c

/-- The place after a comment that follows on the same line, if there is one. -/
def skipLineComment (c : Cursor) : Cursor :=
  let next := c.skipBlanks
  if !c.fresh && next.head? = some '#' then next.toLineEnd else c

end Cursor

end Yaml

end InterpTree
