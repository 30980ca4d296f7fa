import InterpTree.Text.Decimal
import InterpTree.Yaml.Scalar

/-!
What a document says about its nodes beside their content: anchors, which name a node, aliases,
which repeat it, tags, and the directives that tell what tags stand for.
-/

namespace InterpTree

namespace Yaml

/-! ### Names -/

/-- The characters of anchors and of the handles of tags. -/
def isNameChar (c : Char) : Bool := c.isAlphanum || c = '_' || c = '-'

/-- The length of the name at the start of some characters. -/
def nameLength (cs : List Char) : Nat := (cs.takeWhile isNameChar).length

/-- Whether the name of an anchor may end here. -/
def endsAnchor (cs : List Char) : Bool :=
  atGap cs || cs.head?.any fun c => ['?', ':', ',', ']', '}', '%', '@', '\x60'].contains c

/-- The name of an anchor or an alias after its mark. -/
def anchorName? (c : Cursor) : Option (Text × Cursor) :=
  let length := nameLength c.rest
  if length = 0 || !endsAnchor (c.rest.drop length) then none
  else some (Text.ofCharacters (c.rest.take length), c.skip length)

/-! ### Tags -/

/-- The characters that may stand in a tag besides those of names. -/
def tagMarks : List Char :=
  [';', '/', '?', ':', '@', '&', '=', '+', '$', ',', '.', '!', '~', '*', '\'', '(', ')', '[', ']']

/-- A byte written as a percent sign and two digits in base sixteen. -/
def escapedByte? (cs : List Char) : Option UInt8 :=
  match cs with
  | '%' :: digits => (hexNumber? 2 digits).map Nat.toUInt8
  | _ => none

/-- A character whose bytes are all written in this way, and how many bytes that are. -/
def escapedRune? (cs : List Char) : Option (Text × Nat) := do
  let lead ← escapedByte? cs
  let width ←
    if lead < 128 then some 1
    else if 192 ≤ lead && lead < 224 then some 2
    else if 224 ≤ lead && lead < 240 then some 3
    else if 240 ≤ lead && lead < 248 then some 4
    else none
  let more ← (List.range (width - 1)).mapM fun i =>
    (escapedByte? (cs.drop (3 * (i + 1)))).filter Text.continues
  return (lead :: more, width)

/-- The text of a tag, and what follows it; `fuel` bounds its length. -/
def tagText? : Nat → Cursor → Option (Text × Cursor)
  | 0, c => some ([], c)
  | fuel + 1, c =>
    match c.head? with
    | none => some ([], c)
    | some d =>
      if d = '%' then do
        let (rune, width) ← escapedRune? c.rest
        let (more, last) ← tagText? fuel (c.skip (3 * width))
        return (rune ++ more, last)
      else if isNameChar d || tagMarks.contains d then do
        let (more, last) ← tagText? fuel (c.skip 1)
        return (Text.ofCharacters [d] ++ more, last)
      else some ([], c)

/-- The handle of a tag: a mark, a name, and often another mark. Also tells whether it has two. -/
def handle? (c : Cursor) : Option (Text × Bool × Cursor) :=
  if c.head? ≠ some '!' then none
  else
    let length := 1 + nameLength (c.rest.drop 1)
    if (c.rest.drop length).head? = some '!' then
      some (Text.ofCharacters (c.rest.take (length + 1)), true, c.skip (length + 1))
    else some (Text.ofCharacters (c.rest.take length), false, c.skip length)

/-- A tag as it is written: its handle, which may be missing, and what follows the handle. -/
structure Tagged where
  handle : Text
  rest : Text
deriving DecidableEq

/-- A tag that is written out between angle brackets. -/
def verbatimTag? (c : Cursor) : Option (Tagged × Cursor) := do
  let (text, after) ← tagText? c.size (c.skip 2)
  if text.isEmpty || after.head? ≠ some '>' then none
  return (⟨[], text⟩, after.skip 1)

/-- A tag with a handle. A lone mark is a tag of its own. -/
def shortTag? (c : Cursor) : Option (Tagged × Cursor) := do
  let (handle, closed, after) ← handle? c
  let (text, last) ← tagText? c.size after
  if closed then
    if text.isEmpty then none
    return (⟨handle, text⟩, last)
  else
    let mark : Text := "!"
    let text := handle.drop 1 ++ text
    return (if text.isEmpty then ⟨[], mark⟩ else ⟨mark, text⟩, last)

/-- A tag, which has to be followed by a gap. -/
def tag? (c : Cursor) : Option (Tagged × Cursor) :=
  (if (c.rest.drop 1).head? = some '<' then verbatimTag? c else shortTag? c).filter
    fun (_, after) => atGap after.rest

/-! ### Directives -/

/-- A directive: the version of the language, or the beginning that a handle stands for. -/
inductive Directive
  | version (major minor : Nat)
  | handle (name beginning : Text)
deriving DecidableEq

/-- A number of a version, which has at most two digits. -/
def versionNumber? (c : Cursor) : Option (Nat × Cursor) := do
  let digits := c.rest.takeWhile Char.isDigit
  if 2 < digits.length then none
  return (← Text.toNat? (Text.ofCharacters digits), c.skip digits.length)

/-- A directive after its mark, up to the start of the next line. -/
def directive? (c : Cursor) : Option (Directive × Cursor) := do
  let length := nameLength c.rest
  let name := String.ofList (c.rest.take length)
  let c := c.skip length
  if !atGap c.rest then none
  let c := c.skipBlanks
  let (directive, c) ←
    if name = "YAML" then do
      let (major, c) ← versionNumber? c
      if c.head? ≠ some '.' then none
      let (minor, c) ← versionNumber? (c.skip 1)
      some (Directive.version major minor, c)
    else if name = "TAG" then do
      let (handle, closed, c) ← handle? c
      if !closed && handle.length ≠ 1 then none
      if !c.head?.any isBlank then none
      let (beginning, c) ← tagText? c.size c.skipBlanks
      if beginning.isEmpty || !atGap c.rest then none
      some (Directive.handle handle beginning, c)
    else none
  let c := c.skipBlanks
  let c := if c.head? = some '#' then c.toLineEnd else c
  if c.atEnd then return (directive, c)
  else if c.atBreak then return (directive, c.nextLine)
  else none

end Yaml

end InterpTree
