import InterpTree.Manifest
import InterpTree.Engine.Guards
import InterpTree.Engine.Clock
import InterpTree.Tree.Aliases
import InterpTree.Tree.Policies
import InterpTree.Tree.Settings

/-!
Manifests made true. Interpreters that exist already are left as they are apart from their limits,
so a manifest may be applied again.
-/

namespace InterpTree

/-- An action that may be refused. -/
abbrev Attempt := ExceptT Fault Act

namespace Attempt

/-- Carries out an operation. -/
def op {α : Type} (o : Op α) : Attempt α := ExceptT.mk (Act.attempt o)

/-- An action whose refusals get a note in front. -/
def noting {α : Type} (note : Text) (act : Attempt α) : Attempt α :=
  ExceptT.mk do return (← act.run).mapError (Fault.noted note)

/-- Refuses if an evaluation failed. -/
def evaluation (act : Act Completion) : Attempt Unit :=
  ExceptT.mk do
    match (← act).fault? with
    | some f => return .error f
    | none => return .ok ()

end Attempt

namespace Op

/-- Replaces the mentioned limits of the node at a path. -/
def overrideLimits (caller : NodeId) (path : Text) (o : Limits.Override) : Op Unit := do
  let target ← resolve caller path
  updateCancel target fun c =>
    match c.setLimits (o.over c.limits) with
    | .ok c => .ok c
    | .error f => .error (.noted ("limits for " ++ Text.quoted path) f)

/-- Replaces the mentioned limits of the node at a path and of all nodes below it; `fuel` bounds how
deep the tree is. -/
def overrideLimitsBelow (caller : NodeId) (o : Limits.Override) : Nat → Text → Op Unit
  | 0, _ => pure ()
  | fuel + 1, path => do
    overrideLimits caller path o
    (← children caller path).forM fun name => overrideLimitsBelow caller o fuel (joinPath path name)

end Op

namespace Manifest

/-- Sets the limits for every interpreter on all of them, then those of each interpreter that
exists. No branch of the tree is longer than the list of nodes. -/
def applyLimits (root : NodeId) (m : Manifest) : Op Unit := do
  if !m.limits.isEmpty then
    Op.overrideLimitsBelow root m.limits ((← get).nodes.size + 1) []
  m.interpreters.forM fun spec => do
    if !spec.limits.isEmpty && (← get).pathExists root spec.path then
      Op.overrideLimits root spec.path spec.limits

/-- Starts the watchdog of the node at a path. -/
def startWatchdog (root : NodeId) (path : Text) : Op Unit := do
  let target ← Op.resolve root path
  Op.change fun w => (w.startWatchdog target).2

/-- Makes one interpreter. -/
def make (e : Engine) (context : Option Context) (root : NodeId) (everywhere : Limits.Override)
    (spec : InterpreterSpec) : Attempt Unit := do
  let path := spec.path
  let (parent, name) := splitPath path
  let _ ← Attempt.op (Op.create root parent name
    { safe := spec.safe, standard := spec.standard, fullCommands := spec.fullCommands
      noCommands := spec.noCommands })
  Attempt.op (Op.overrideLimits root path everywhere)
  Attempt.op (Op.overrideLimits root path spec.limits)
  spec.hide.forM fun name =>
    Attempt.noting ("hide " ++ name) (Attempt.op (Op.hide root path name []))
  spec.expose.forM fun name =>
    Attempt.noting ("expose " ++ name) (Attempt.op (Op.expose root path name []))
  spec.aliases.forM fun a =>
    Attempt.noting ("alias " ++ a.name) do
      let _ ← Attempt.op (Op.aliasByShape root path a.name (a.target :: a.command :: a.args))
  spec.policies.forM fun p =>
    Attempt.noting "policy" do
      let _ ← Attempt.op (Op.addPolicy root path
        { onInvoke := !p.evaluate, onEvaluate := p.evaluate, type := p.type, token := p.token
          script := p.script })
  spec.scripts.zipIdx.forM fun (script, i) =>
    Attempt.noting ("scripts[" ++ Text.ofNat i ++ "]")
      (Attempt.evaluation (e.evaluateIn context root path script))
  if spec.watchdog then Attempt.op (startWatchdog root path)
  if spec.trusted then Attempt.op (Op.markTrusted root path)
  if spec.readOnly then Attempt.op (Op.setReadOnly root path true)
  if spec.immutable then Attempt.op (Op.setImmutable root path true)

/-- Makes the interpreters that do not exist yet, in order, and sets the limits of all. -/
def apply (e : Engine) (context : Option Context) (root : NodeId) (m : Manifest) :
    Attempt Unit := do
  m.interpreters.forM fun spec => do
    if !(← getThe World).pathExists root spec.path then
      Attempt.noting ("manifest: interpreter " ++ Text.quoted spec.path)
        (make e context root m.limits spec)
      modifyThe World (World.log .debug "manifest interpreter created"
        [field "node" (Text.ofNat root), field "path" spec.path,
          field "safe" (flagField spec.safe)])
  Attempt.op (applyLimits root m)

end Manifest

end InterpTree
