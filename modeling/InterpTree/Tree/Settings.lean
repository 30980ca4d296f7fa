import InterpTree.Tree.Commands

/-!
What the host sets on a node that it holds: the limits, and the handler of background errors.
-/

namespace InterpTree

/-- Takes a step on the controller of a node. -/
def Edit.control (f : Cancellation → Except Fault Cancellation) : Edit Unit := do
  let c ← Op.lift (f (← get).cancel)
  modify fun n => { n with cancel := c }

namespace Op

/-- Takes a step on the controller of a node, which may be refused. -/
def updateCancel (id : NodeId) (f : Cancellation → Except Fault Cancellation) : Op Unit :=
  updateNode id (Edit.control f)

/-- Sets all limits of a node at once. -/
def setLimits (id : NodeId) (limits : Limits) : Op Unit :=
  updateCancel id (Cancellation.setLimits limits)

/-- Sets one limit of a node. -/
def setLimit (id : NodeId) (field : Limits.Field) (v : Int) : Op Unit :=
  updateCancel id (Cancellation.setLimit field v)

/-- Sets the command prefix that gets the errors of background work; an empty one leaves them to the
log. -/
def setBackgroundError (id : NodeId) (handler : List Text) : Op Unit := do
  let n ← node id
  require (!n.dead) (.noInterpreter n.path)
  change (World.modifyNode id fun n => { n with backgroundError := handler })

end Op

end InterpTree
