import InterpTree.World

/-!
Paths. A path is a sequence of link names with dots between them; the empty path is the node that it
starts from. Link names are never empty and hold no dot.
-/

namespace InterpTree

/-- The path `rel` continued from the path `base`. -/
def joinPath (base rel : Text) : Text :=
  if base.isEmpty then rel
  else if rel.isEmpty then base
  else base ++ [Text.dot] ++ rel

/-- A path as the path of the parent and the last name. -/
def splitPath (path : Text) : Text × Text :=
  match Text.cutLast Text.dot path with
  | none => ([], path)
  | some (parent, name) => (parent, name)

/-- Whether a node may have this name. -/
def isValidName (name : Text) : Bool := !name.isEmpty && !name.contains Text.dot

namespace World

/-- The live child that a link name leads to. -/
def child? (w : World) (id : NodeId) (name : Text) : Option NodeId := do
  let n ← w.node? id
  if n.dead then none
  else
    let l ← n.link? name
    let target ← w.live? l.target
    return target.id

/-- Follows link names one after the other. -/
def follow? (w : World) (id : NodeId) : List Text → Option NodeId
  | [] => some id
  | name :: names => (w.child? id name).bind fun next => w.follow? next names

/-- The node at a path from node `id`. -/
def resolve? (w : World) (id : NodeId) (path : Text) : Option NodeId := do
  let n ← w.node? id
  if n.dead then none
  else if path.isEmpty then some id
  else w.follow? id (Text.splitAt Text.dot path)

/-- Whether there is a node at a path. -/
def pathExists (w : World) (id : NodeId) (path : Text) : Bool := (w.resolve? id path).isSome

/-- Whether node `id` is `other` or below it on the chain of parents; `fuel` bounds the chain. -/
def isBelow (w : World) (other : NodeId) : Nat → NodeId → Bool
  | 0, _ => false
  | fuel + 1, id =>
    if id = other then true
    else
      match w.node? id with
      | none => false
      | some n =>
        match w.live? n.parent with
        | none => false
        | some parent => w.isBelow other fuel parent.id

/-- Whether node `id` is `other` or one of its descendants. Parents are older than their children,
so no chain of parents is longer than the list of nodes. -/
def isWithin (w : World) (id other : NodeId) : Bool := w.isBelow other (w.nodes.size + 1) id

end World

namespace Op

/-- The node at a path from node `id`. -/
def resolve (id : NodeId) (path : Text) : Op NodeId := do
  match (← get).resolve? id path with
  | some target => return target
  | none => throw (.noInterpreter path)

/-- Refuses a privileged operation to a safe caller. -/
def requirePrivilege (caller : NodeId) (action : Text) : Op Unit := do
  let n ← node caller
  require (!n.trust.safe)
    (.of .permissionDenied ("permission denied: safe interpreter cannot " ++ action))

/-- The names of the child links of the node at a path, in the order of linking. -/
def children (caller : NodeId) (path : Text) : Op (List Text) := do
  let target ← resolve caller path
  return (← node target).links.map Link.name

end Op

end InterpTree
