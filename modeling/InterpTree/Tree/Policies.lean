import InterpTree.Tree.Path

/-!
The policies of a node.
-/

namespace InterpTree

/-- What a new policy says. One for neither invocation nor evaluation is for invocation. -/
structure PolicySpec where
  onInvoke : Bool := false
  onEvaluate : Bool := false
  type : Text := []
  token : Nat := 0
  script : Text := []
  guard : Option Guard := none
  plugin : Text := []

namespace Op

/-- Installs a policy on the node at a path, owned by the caller, and gives its name. -/
def addPolicy (caller : NodeId) (path : Text) (spec : PolicySpec) : Op Text := do
  requirePrivilege caller "add policy"
  require (!spec.type.isEmpty || spec.token != 0)
    (.of .invalidArgument "-type or -token required")
  let target ← resolve caller path
  let n ← node target
  let name : Text := "policy" ++ Text.ofNat (n.policySeq + 1)
  let policy : Policy :=
    { name, onInvoke := spec.onInvoke || !spec.onEvaluate, onEvaluate := spec.onEvaluate
      type := spec.type, token := spec.token, script := spec.script, guard := spec.guard
      plugin := spec.plugin, owner := caller }
  change (World.modifyNode target fun n =>
    { n with policySeq := n.policySeq + 1, policies := n.policies ++ [policy] })
  change (World.logNode .debug target "policy added"
    [field "policy" name, field "type" spec.type])
  return name

/-- Removes a policy of the node at a path. -/
def removePolicy (caller : NodeId) (path name : Text) : Op Unit := do
  requirePrivilege caller "remove policy"
  let target ← resolve caller path
  let n ← node target
  require (n.policies.any fun p => p.name == name)
    (.of .notFound ("policy " ++ Text.quoted name ++ " not found"))
  change (World.modifyNode target fun n =>
    { n with policies := n.policies.filter fun p => p.name != name })

/-- The policy names of the node at a path, in the order of installation. -/
def policies (caller : NodeId) (path : Text) : Op (List Text) := do
  let target ← resolve caller path
  return (← node target).policies.map Policy.name

end Op

end InterpTree
