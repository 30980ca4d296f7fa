import InterpTree.Tree.Create

/-!
Objects of the host. An object belongs to the node it was registered in and is disposed of with it,
until it is shared.
-/

namespace InterpTree

namespace Fault

def noObject (name : Text) : Fault :=
  .of .notFound ("object " ++ Text.quoted name ++ " not found")

def objectExists (name : Text) : Fault :=
  .of .alreadyExists ("object " ++ Text.quoted name ++ " already exists")

end Fault

namespace Op

/-- Registers a value in a node, as an object of its own, and gives the token of that. -/
def addObject (id : NodeId) (name : Text) (value : HostValue) : Op Nat := do
  require (!name.isEmpty) (.of .invalidArgument ("invalid object name " ++ Text.quoted name))
  let n ← node id
  require (!n.dead) (.noInterpreter n.path)
  require (n.objects.lookup name).isNone (.objectExists name)
  let token := (← get).objects.size + 1
  change fun w => { w with objects := w.objects.push { name, token, value } }
  change (World.modifyNode id fun n => { n with objects := n.objects ++ [(name, token)] })
  return token

/-- The object of a name in a node. -/
def object? (id : NodeId) (name : Text) : Op (Option Object) := do
  return ((← node id).objects.lookup name).bind (← get).object?

/-- Takes an object out of a node and disposes of it, unless it is exempt. -/
def removeObject (id : NodeId) (name : Text) : Op Unit := do
  match ← object? id name with
  | none => throw (.noObject name)
  | some o =>
    change (World.modifyNode id fun n =>
      { n with objects := n.objects.filter fun entry => entry.1 != name })
    if !o.noDispose then
      let (failed, w) := (← get).dispose o
      set w
      match failed with
      | none => return
      | some f => throw f

/-- Registers an object of the caller also in the node at a path. It is not disposed of with either
from then on. Gives its token. -/
def shareObject (caller : NodeId) (path name : Text) : Op Nat := do
  requirePrivilege caller "share objects"
  let target ← resolve caller path
  match ← object? caller name with
  | none => throw (.noObject name)
  | some o =>
    change (World.modifyObject o.token fun o => { o with noDispose := true, shared := true })
    if target ≠ caller then
      match (← node target).objects.lookup name with
      | some token => require (token = o.token) (.objectExists name)
      | none =>
        change (World.modifyNode target fun n =>
          { n with objects := n.objects ++ [(name, o.token)] })
    return o.token

end Op

end InterpTree
