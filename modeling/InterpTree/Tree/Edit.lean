import InterpTree.World

/-!
Edits. An edit takes steps on one node: it looks at the node, writes to it, or refuses. What was
written stays written when a later step refuses. So a node is as it was after an edit that is refused
only because everything that may be in the way is looked at before anything is written.
-/

namespace InterpTree

/-- Steps on a node. -/
abbrev Edit := EStateM Fault Node

/-- The outcome of an edit and the node that it leaves, unless it is refused. -/
def Edit.outcome {α : Type} (edit : Edit α) (n : Node) : Except Fault (α × Node) :=
  match edit n with
  | .ok a m => .ok (a, m)
  | .error f _ => .error f

/-- Takes the steps of an edit on a node of the tree. -/
def Op.updateNode {α : Type} (id : NodeId) (edit : Edit α) : Op α := do
  match edit (← node id) with
  | .ok a n =>
    change (World.modifyNode id fun _ => n)
    return a
  | .error f n =>
    change (World.modifyNode id fun _ => n)
    throw f

end InterpTree
