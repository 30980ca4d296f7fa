import InterpTree.Tree.Teardown

/-!
Interpreters handed over to the host. A shared interpreter has, besides the link from its parent,
links from any number of holders; it outlives them all and is disposed of on its own.
-/

namespace InterpTree

namespace Op

/-- Links the node at `source` into the node at `path` and hands it over to the host. Gives the
name of the link. -/
def shareInterp (caller : NodeId) (path source : Text) : Op Text := do
  requirePrivilege caller "share interpreters"
  let shared ← node (← resolve caller source)
  let holder ← node (← resolve caller path)
  require (!shared.isRoot) (.of .invalidArgument "cannot share the root interpreter")
  require (!(← get).isWithin holder.id shared.id)
    (.of .invalidArgument ("cannot share interpreter " ++ Text.quoted source ++ " into itself"))
  let name : Text := "shared" ++ Text.ofNat shared.id
  require (holder.link? name).isNone
    (.of .alreadyExists
      ("interpreter " ++ Text.quoted source ++ " is already shared into " ++ Text.quoted path))
  change (World.modifyNode holder.id
    (Node.addLink { name, target := shared.id, shared := true }))
  change (World.modifyNode shared.id fun n =>
    { n with shared := true, sharedLinks := n.sharedLinks ++ [⟨holder.id, name⟩] })
  change (World.logNode .info shared.id "interpreter shared"
    [field "holder" holder.path, field "link" name])
  return name

/-- Destroys a node that was handed over to the host, with every link to it. `worker` is the node
on whose worker the caller runs, if it runs on one. -/
def disposeShared (worker : Option NodeId) (caller : NodeId) (path : Text) : Op Unit := do
  requirePrivilege caller "dispose shared interpreters"
  let target ← node (← resolve caller path)
  require (!(← get).isWithin caller target.id)
    (.of .invalidArgument
      ("cannot dispose interpreter " ++ Text.quoted path ++ " from within itself"))
  require target.shared
    (.of .invalidArgument ("interpreter " ++ Text.quoted path ++ " is not shared"))
  change (World.modifyNode target.id fun n => { n with dead := true })
  if ((← get).attached? target.parent).isSome then
    change (World.modifyNode target.parent (Node.unlink target.name target.id))
  change (World.unlinkShared target.id)
  change (World.teardown worker target.id)

end Op

end InterpTree
