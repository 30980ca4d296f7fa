import InterpTree.Tree.Commands

/-!
Aliases of a node. Every alias has a shim, a command that forwards its calls.
-/

namespace InterpTree

namespace Fault

def noTarget (path : Text) : Fault :=
  .of .noSuchInterpreter
    ("target interpreter " ++ Text.quoted path ++ " is not my descendant")

def noAlias (name : Text) : Fault :=
  .of .notFound ("alias " ++ Text.quoted name ++ " not found")

end Fault

/-- The node with an alias and its shim, which goes by the name `source`. -/
def Node.putAlias (source : Text) (make : Nat → Alias) (n : Node) : Alias × Node :=
  let a := make (n.seq + 1)
  let command : Command :=
    { name := source, kind := .shim, flags := .everywhere, type := "alias"
      action := .forward a, seq := n.seq + 1 }
  (a,
    { n with
      seq := n.seq + 1
      commands := n.commands ++ [{ name := source, command }]
      aliases := n.aliases ++ [a] })

namespace Edit

open Op (require)

/-- Makes an alias and its shim, in place of a visible command of the same name. `path` is how the
caller named the node. -/
def defineAlias (path : Text) (make : Nat → Alias) : Edit Alias := do
  let source := (make 0).source
  let n ← get
  require (!n.trust.readOnly) (.readOnly path)
  require (n.alias? source).isNone
    (.of .alreadyExists ("alias " ++ Text.quoted source ++ " already exists"))
  require (n.commands.hidden? source).isNone (.commandHidden source)
  clear source fun existing =>
    .because .internal ("could not replace " ++ existing.kind.name ++ " " ++ Text.quoted source)
  modifyGet (Node.putAlias source make)

/-- Removes an alias, and its shim wherever that is. -/
def eraseAlias (path name : Text) : Edit Unit := do
  let n ← get
  require (!n.trust.readOnly) (.readOnly path)
  match n.alias? name with
  | none => throw (.noAlias name)
  | some a =>
    modify fun n => { n with aliases := n.aliases.filter fun b => b.source != name }
    modify fun n => { n with commands := n.commands.eraseShims a }

end Edit

/-- The node with an alias and its shim, in place of a visible command of the same name. -/
def Node.defineAlias (path : Text) (make : Nat → Alias) (n : Node) : Except Fault (Alias × Node) :=
  (Edit.defineAlias path make).outcome n

namespace Op

/-- The alias of a name in the node at a path. -/
def queryAlias (caller : NodeId) (path name : Text) : Op Alias := do
  let source ← resolve caller path
  match (← node source).alias? name with
  | some a => return a
  | none => throw (.noAlias name)

/-- Makes `name` in the node at `path` forward to `targetName` in the node at `targetPath`. Both
paths start from the caller. -/
def defineAlias (caller : NodeId) (path name targetPath targetName : Text) (bound : List Text) :
    Op Alias := do
  requirePrivilege caller "create aliases"
  require (!name.isEmpty && !targetName.isEmpty)
    (.of .invalidArgument
      ("invalid alias " ++ Text.quoted name ++ " -> " ++ Text.quoted targetName))
  let source ← resolve caller path
  match (← get).resolve? caller targetPath with
  | none => throw (.noTarget targetPath)
  | some target =>
    let absolute := (← node target).path
    let a ← updateNode source (Edit.defineAlias path fun seq =>
      ⟨name, absolute, targetName, bound, target != source, seq⟩)
    change (World.logNode .debug source "alias created"
      [field "alias" name, field "target" absolute])
    return a

/-- Removes an alias and its shim. -/
def deleteAlias (caller : NodeId) (path name : Text) : Op Unit := do
  requirePrivilege caller "delete aliases"
  let source ← resolve caller path
  updateNode source (Edit.eraseAlias path name)

/-- The three-way operation on an alias, chosen by the words that follow its name: none to ask for
it, an empty name to remove it, a path and a name to make it. -/
def aliasByShape (caller : NodeId) (path name : Text) (rest : List Text) :
    Op (Option Alias) := do
  match rest with
  | [] => return some (← queryAlias caller path name)
  | [[]] =>
    deleteAlias caller path name
    return none
  | [targetPath, []] =>
    match (← get).resolve? caller targetPath with
    | none => throw (.noTarget targetPath)
    | some _ =>
      deleteAlias caller path name
      return none
  | targetPath :: targetName :: bound =>
    return some (← defineAlias caller path name targetPath targetName bound)
  | [_] =>
    throw (.of .invalidArgument
      "wrong # args: should be \"interp alias srcPath srcCmd ?targetPath targetCmd? ?arg ...?\"")

/-- The alias names of the node at a path, in the order of definition. -/
def aliases (caller : NodeId) (path : Text) : Op (List Text) := do
  let source ← resolve caller path
  return (← node source).aliases.map Alias.source

/-- The absolute path that an alias forwards to. -/
def aliasTarget (caller : NodeId) (path name : Text) : Op Text := do
  return (← queryAlias caller path name).targetPath

end Op

end InterpTree
