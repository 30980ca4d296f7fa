import InterpTree.Tree.Path

/-!
Sketches of an interpreter tree: each node as a line of text, with the nodes that its links lead to
below it.
-/

namespace InterpTree

inductive Sketch
  | node (line : Text) (below : List Sketch)

namespace Node

/-- What sets a node apart. -/
def marks (n : Node) : List Text :=
  let flags : List (Bool × Text) :=
    [(n.trust.safe, "safe"), (n.trust.standard, "standard"), (n.trust.trusted, "trusted"),
      (n.trust.readOnly, "readonly"), (n.trust.immutable, "immutable"), (n.shared, "shared"),
      (n.cancel.watchdog.isSome, "watchdog")]
  (flags.filter Prod.fst).map Prod.snd ++
    if n.queue.size = 0 then [] else [Text.ofNat n.queue.size ++ " queued"]

/-- A node on one line: its name, and its marks in brackets. -/
def line (n : Node) : Text :=
  let name : Text := if n.isRoot then "\x7b\x7d" else n.name
  if n.marks.isEmpty then name else name ++ " [" ++ Text.join ", " n.marks ++ "]"

end Node

namespace Op

/-- The sketch of the node at a path; `fuel` bounds how deep the tree is. -/
def sketchWithin (root : NodeId) : Nat → Text → Op Sketch
  | 0, _ => return .node [] []
  | fuel + 1, path => do
    let n ← node (← resolve root path)
    let names ← children root path
    return .node n.line (← names.mapM fun name => sketchWithin root fuel (joinPath path name))

/-- The sketch of the node at a path. No branch is longer than the list of nodes. -/
def sketch (root : NodeId) (path : Text) : Op Sketch := do
  sketchWithin root ((← get).nodes.size + 1) path

end Op

namespace Sketch

mutual

/-- A node below others, on a line that starts with `indent`. -/
def branch (indent : Text) (last : Bool) : Sketch → Text
  | .node line below =>
    indent ++ (if last then "└─" else "├─") ++ (if below.isEmpty then "─" else "┬") ++ line ++
      "\n" ++ branches (indent ++ if last then "  " else "│ ") below

/-- Nodes below the same node. -/
def branches (indent : Text) : List Sketch → Text
  | [] => []
  | s :: rest => branch indent rest.isEmpty s ++ branches indent rest

end

/-- The drawing of a sketch. -/
def draw : Sketch → Text
  | .node line below => line ++ "\n" ++ branches [] below

end Sketch

end InterpTree
