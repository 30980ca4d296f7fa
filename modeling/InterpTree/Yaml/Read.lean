import InterpTree.Yaml
import InterpTree.Yaml.Token

/-!
The reader of documents: it puts nodes together from tokens. Of several documents only the first
counts, and what comes after the first node is not looked at beyond the next token.
-/

namespace InterpTree

namespace Yaml

/-- A name for a node. While the node is being read there is none yet. -/
structure Anchor where
  name : Text
  /-- Which of the anchors it is, in order. -/
  number : Nat
  node : Option Yaml

/-- What the reader knows: the tokens to come, the beginnings that the handles of tags stand for,
and the anchors, the latest first. -/
structure Reading where
  scanner : Scanner
  handles : List (Text × Text) := []
  anchors : List Anchor := []

/-- A step of the reader; there is no result if the document is malformed. -/
abbrev Reader := StateT Reading Option

namespace Reader

/-- The next token. -/
def peek : Reader Token := do
  let r ← get
  let (t, scanner) ← r.scanner.peek?
  set { r with scanner }
  return t

/-- Takes the next token. -/
def take : Reader Unit := modify fun r => { r with scanner := r.scanner.drop }

/-- Takes the next token if it is a certain one, and tells whether it is. -/
def takeIf (t : Token) : Reader Bool := do
  if (← peek) = t then
    take
    return true
  else return false

/-- Takes the comma between two items. -/
def separator : Reader Unit := do if !(← takeIf .comma) then failure

/-- Whether the next token is one of some. -/
def isAt (ts : List Token) : Reader Bool := return ts.contains (← peek)

/-! ### Properties -/

/-- The handles that every document knows. -/
def coreHandles : List (Text × Text) := [("!", "!"), ("!!", Datum.coreTag)]

/-- The tag that a tag as written stands for. -/
def tagOf (t : Tagged) : Reader Datum.Tag := do
  if t.handle.isEmpty then return .ofText t.rest
  else
    let beginning ← (← get).handles.lookup t.handle
    return .ofText (beginning ++ t.rest)

/-- The anchor and the tag in front of a node, in either order. -/
def properties : Reader (Option Text × Option Tagged) := do
  let anchor? : Reader (Option Text) := do
    match ← peek with
    | .anchor name =>
      take
      return some name
    | _ => return none
  let tag? : Reader (Option Tagged) := do
    match ← peek with
    | .tag t =>
      take
      return some t
    | _ => return none
  match ← anchor? with
  | some name => return (some name, ← tag?)
  | none =>
    match ← tag? with
    | none => return (none, none)
    | some t => return (← anchor?, some t)

/-- Reads a node that may have a name. Until it is complete nothing can repeat it. -/
def named (anchor : Option Text) (node : Reader Yaml) : Reader Yaml :=
  match anchor with
  | none => node
  | some name => do
    let number := (← get).anchors.length
    modify fun r => { r with anchors := ⟨name, number, none⟩ :: r.anchors }
    let y ← node
    modify fun r =>
      { r with
        anchors := r.anchors.map fun a =>
          if a.number = number then { a with node := some y } else a }
    return y

/-- The node that a name stands for, once more. -/
def repeated (name : Text) : Reader Yaml := do
  let anchor ← (← get).anchors.find? fun a => a.name = name
  let y ← anchor.node
  return .again name y.size y

/-- A node that is not there. -/
def absent : Yaml := .ofPlain []

/-! ### Nodes -/

mutual

/-- A node. A block may start only where `block` allows it, and a block list without a column of its
own only where `bare` does. -/
def node (block bare : Bool) : Nat → Reader Yaml
  | 0 => failure
  | fuel + 1 => do
    match ← peek with
    | .alias name =>
      take
      repeated name
    | _ => do
      let (anchor, tagged) ← properties
      let tag ←
        match tagged with
        | none => pure Datum.Tag.none
        | some t => tagOf t
      named anchor (content block bare (anchor.isSome || tagged.isSome) tag fuel)

/-- The content of a node, which may be left out only if something was said about it before. -/
def content (block bare optional : Bool) (tag : Datum.Tag) : Nat → Reader Yaml
  | 0 => failure
  | fuel + 1 => do
    match ← peek with
    | .scalar plain t =>
      take
      return .scalar t (Datum.ofScalar? tag plain t)
    | .openList =>
      take
      return .list (← flowItems true fuel)
    | .openMap =>
      take
      return .map (← flowEntries true fuel)
    | .dash =>
      if bare then return .list (← bareItems fuel)
      else if optional then return .scalar [] (Datum.ofScalar? tag true [])
      else failure
    | .blockList =>
      if !block then failure
      take
      return .list (← blockItems fuel)
    | .blockMap =>
      if !block then failure
      take
      return .map (← blockEntries fuel)
    | _ => if optional then return .scalar [] (Datum.ofScalar? tag true []) else failure

/-- A node, unless one of some tokens comes first. -/
def nodeBefore (ends : List Token) (block bare : Bool) : Nat → Reader Yaml
  | 0 => failure
  | fuel + 1 => do if ← isAt ends then return absent else node block bare fuel

/-- The items of a block list. -/
def blockItems : Nat → Reader (List Yaml)
  | 0 => failure
  | fuel + 1 => do
    if ← takeIf .dash then
      let item ← nodeBefore [.dash, .blockEnd] true false fuel
      return item :: (← blockItems fuel)
    else if ← takeIf .blockEnd then return []
    else failure

/-- The items of a block list in the column of the keys around it. -/
def bareItems : Nat → Reader (List Yaml)
  | 0 => failure
  | fuel + 1 => do
    if ← takeIf .dash then
      let item ← nodeBefore [.dash, .key, .value, .blockEnd] true false fuel
      return item :: (← bareItems fuel)
    else return []

/-- The entries of a block mapping. -/
def blockEntries : Nat → Reader (List (Yaml × Yaml))
  | 0 => failure
  | fuel + 1 => do
    let ends : List Token := [.key, .value, .blockEnd]
    if ← takeIf .key then
      let key ← nodeBefore ends true true fuel
      let value ← if ← takeIf .value then nodeBefore ends true true fuel else pure absent
      return (key, value) :: (← blockEntries fuel)
    else if ← takeIf .blockEnd then return []
    else failure

/-- The items of a flow list. An item that is a key with its value is a mapping of one entry. -/
def flowItems (first : Bool) : Nat → Reader (List Yaml)
  | 0 => failure
  | fuel + 1 => do
    if ← takeIf .closeList then return []
    if !first then separator
    if ← takeIf .closeList then return []
    let item ←
      if ← takeIf .key then flowPair fuel else node false false fuel
    return item :: (← flowItems false fuel)

/-- The key and the value of an item. Without a key the token after the mark of a key is lost. -/
def flowPair : Nat → Reader Yaml
  | 0 => failure
  | fuel + 1 => do
    let key ←
      if ← isAt [.value, .comma, .closeList] then do
        take
        pure absent
      else node false false fuel
    let value ←
      if ← takeIf .value then nodeBefore [.comma, .closeList] false false fuel else pure absent
    return .map [(key, value)]

/-- The entries of a flow mapping. -/
def flowEntries (first : Bool) : Nat → Reader (List (Yaml × Yaml))
  | 0 => failure
  | fuel + 1 => do
    if ← takeIf .closeMap then return []
    if !first then separator
    if ← takeIf .closeMap then return []
    let entry ←
      if ← takeIf .key then do
        let key ← nodeBefore [.value, .comma, .closeMap] false false fuel
        let value ←
          if ← takeIf .value then nodeBefore [.comma, .closeMap] false false fuel
          else pure absent
        pure (key, value)
      else pure (← node false false fuel, absent)
    return entry :: (← flowEntries false fuel)

end

/-! ### Documents -/

/-- The directives in front of a document. There may be one version, which is 1.1, and one meaning
for each handle. -/
def directives (versioned : Bool) : Nat → Reader Unit
  | 0 => failure
  | fuel + 1 => do
    match ← peek with
    | .directive (.version major minor) =>
      if versioned || major ≠ 1 || minor ≠ 1 then failure
      take
      directives true fuel
    | .directive (.handle name beginning) =>
      if ((← get).handles.lookup name).isSome then failure
      take
      modify fun r => { r with handles := r.handles ++ [(name, beginning)] }
      directives versioned fuel
    | _ => modify fun r => { r with handles := r.handles ++ coreHandles }

/-- Whether a document ends before its node. -/
def isBorder : Token → Bool
  | .directive _ | .documentStart | .documentEnd | .finish => true
  | _ => false

/-- The node of the first document, if there is a document. -/
def document (fuel : Nat) : Reader (Option Yaml) := do
  match ← peek with
  | .finish => return none
  | .directive _ | .documentStart => do
    directives false fuel
    if !(← takeIf .documentStart) then failure
    if isBorder (← peek) then return some absent
    let y ← node true false fuel
    let _ ← peek
    return some y
  | _ => do
    directives false fuel
    let y ← node true false fuel
    let _ ← peek
    return some y

end Reader

/-- Reads a document; an empty one has no node. -/
def read (s : Text) : Option (Option Yaml) := do
  let cs ← characters? s
  let (found, _) ← (Reader.document (4 * cs.length + 8)).run { scanner := .ofCharacters cs }
  match found with
  | none => return none
  | some y => if y.isModest then return some y else none

end Yaml

end InterpTree
