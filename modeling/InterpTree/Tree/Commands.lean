import InterpTree.Tree.Edit
import InterpTree.Tree.Path

/-!
Operations on the command table of a node.
-/

namespace InterpTree

/-- What a new definition says. An empty type stands for the name; without an action there is
nothing to define. -/
structure CommandSpec where
  name : Text
  kind : CommandKind := .plain
  flags : CommandFlags := {}
  type : Text := []
  token : Nat := 0
  action : Option Action := none

namespace Fault

def noCommand (name : Text) : Fault :=
  .of .notFound ("invalid command name " ++ Text.quoted name)

def readOnly (path : Text) : Fault :=
  .of .permissionDenied
    ("permission denied: interpreter " ++ Text.quoted path ++ " is read-only")

def commandHidden (name : Text) : Fault :=
  .of .alreadyExists ("command " ++ Text.quoted name ++ " is hidden")

end Fault

/-- The node with one more visible definition. -/
def Node.putCommand (spec : CommandSpec) (action : Action) (n : Node) : Command × Node :=
  let command : Command :=
    { name := spec.name, kind := spec.kind, flags := spec.flags
      type := if spec.type.isEmpty then spec.name else spec.type
      token := spec.token, action, seq := n.seq + 1 }
  (command,
    { n with
      seq := n.seq + 1
      commands := n.commands ++ [{ name := spec.name, command }] })

namespace Edit

open Op (require)

/-- Removes the visible definition of a name, and the alias that it is the shim of. -/
def eraseCommand (name : Text) (c : Command) : Edit Unit := do
  require (!c.flags.noRemove)
    (.of .permissionDenied ("cannot remove command " ++ Text.quoted name))
  modify fun n => { n with commands := n.commands.eraseVisible name }
  match c.alias? with
  | none => return
  | some a =>
    modify fun n => { n with aliases := n.aliases.filter fun b => b.source != a.source }

/-- Removes what visibly goes by a name, if anything does. `blame` says why it could not be done. -/
def clear (name : Text) (blame : Command → Fault → Fault) : Edit Unit := do
  match (← get).commands.visible? name with
  | none => return
  | some existing => tryCatch (eraseCommand name existing) fun cause => throw (blame existing cause)

/-- Makes a visible definition, in place of one of the same name. -/
def define (spec : CommandSpec) : Edit Command := do
  require (!spec.name.isEmpty)
    (.of .invalidArgument ("invalid command name " ++ Text.quoted spec.name))
  match spec.action with
  | none =>
    throw (.of .invalidArgument ("command " ++ Text.quoted spec.name ++ " has no implementation"))
  | some action =>
    let n ← get
    require (!n.dead) (.noInterpreter n.path)
    require (!n.trust.readOnly) (.readOnly n.path)
    require (n.commands.hidden? spec.name).isNone (.commandHidden spec.name)
    clear spec.name fun _ cause => cause
    modifyGet (Node.putCommand spec action)

/-- Removes a visible command. Removing the shim of an alias removes the alias as well. -/
def removeCommand (name : Text) : Edit Unit := do
  let n ← get
  require (!n.trust.readOnly) (.readOnly n.path)
  match n.commands.visible? name with
  | none => throw (.noCommand name)
  | some c => eraseCommand name c

/-- Hides a command under a name. `path` is how the caller named the node. -/
def hide (path name newName : Text) : Edit Unit := do
  let n ← get
  require (!n.trust.readOnly) (.readOnly path)
  require (n.commands.visible? name).isSome (.noCommand name)
  require (n.commands.hidden? newName).isNone
    (.of .alreadyExists ("hidden command " ++ Text.quoted newName ++ " already exists"))
  require (newName == name || (n.commands.visible? newName).isNone)
    (.of .alreadyExists ("command " ++ Text.quoted newName ++ " already exists"))
  modify fun n => { n with commands := n.commands.hide name newName }

/-- Exposes a hidden command under a name. -/
def expose (path name newName : Text) : Edit Unit := do
  let n ← get
  require (!n.trust.readOnly) (.readOnly path)
  require (n.commands.hidden? name).isSome
    (.of .notFound ("unknown hidden command " ++ Text.quoted name))
  require (n.commands.visible? newName).isNone
    (.of .alreadyExists ("exposed command " ++ Text.quoted newName ++ " already exists"))
  require (newName == name || (n.commands.hidden? newName).isNone) (.commandHidden newName)
  modify fun n => { n with commands := n.commands.expose name newName }

end Edit

namespace Node

/-- The node without its visible definition of a name, and without the alias behind it. -/
def eraseCommand (name : Text) (c : Command) (n : Node) : Except Fault Node :=
  ((Edit.eraseCommand name c).outcome n).map Prod.snd

/-- The node with one more visible definition, in place of one of the same name. -/
def define (spec : CommandSpec) (n : Node) : Except Fault (Command × Node) :=
  (Edit.define spec).outcome n

end Node

namespace Op

/-- Defines a visible command. -/
def defineCommand (id : NodeId) (spec : CommandSpec) : Op Command :=
  updateNode id (Edit.define spec)

/-- Removes a visible command. -/
def removeCommand (id : NodeId) (name : Text) : Op Unit := updateNode id (Edit.removeCommand name)

/-- Hides a command of the node at a path, under another name if one is given. -/
def hide (caller : NodeId) (path name newName : Text) : Op Unit := do
  requirePrivilege caller "hide commands"
  let target ← resolve caller path
  updateNode target (Edit.hide path name (if newName.isEmpty then name else newName))

/-- Exposes a hidden command of the node at a path, under another name if one is given. -/
def expose (caller : NodeId) (path name newName : Text) : Op Unit := do
  requirePrivilege caller "expose commands"
  let target ← resolve caller path
  updateNode target (Edit.expose path name (if newName.isEmpty then name else newName))

/-- The hidden commands of the node at a path. -/
def hidden (caller : NodeId) (path : Text) : Op (List Text) := do
  let target ← resolve caller path
  return (← node target).commands.hiddenNames

end Op

end InterpTree
