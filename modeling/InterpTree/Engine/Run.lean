import InterpTree.Engine.Builtins
import InterpTree.Engine.Control

/-!
Running requests. This is where the commands are tied together: a request is answered by a step that
sends the requests it makes itself to the same place, with less fuel.
-/

namespace InterpTree

namespace Engine

/-- Forwards a call to the target of an alias. -/
def forward (e : Engine) (call : Call) (a : Alias) : Act Completion := do
  match (← get).resolve? World.root a.targetPath with
  | none =>
    return .fail (.of .noSuchInterpreter
      ("target interpreter " ++ Text.quoted a.targetPath ++ " for alias " ++
        Text.quoted a.source ++ " no longer exists"))
  | some target =>
    let (limit, depth) ← Act.ofNode call.node fun n =>
      (n.cancel.limits.recursionLimit, n.frames.depth)
    if 0 < limit && limit ≤ depth then return tooDeep
    else
      let args := a.bound ++ call.args
      let result ← inFrame call.node ("alias " ++ a.source)
        (FrameFlags.restricted + FrameFlags.viaAlias)
        (e.invoke call.context target a.targetName args)
      if result.isError then
        return result.annotate ("(in alias " ++ Text.quoted a.source ++ " eval " ++
          Text.quoted (Text.words (a.targetName :: args)) ++ ")")
      else return result

/-- Runs a command that tests of a host define. -/
def hostAction (call : Call) : HostAction → Act Completion
  | .echo => return .ok (Text.words call.args)
  | .fail => return .failWith ("boom " ++ Text.words call.args)
  | .failUnexplained => return .unexplained
  | .complete code value => return { status := .ofCode code, value }
  | .crash message => Act.crash message
  | .describe => do
    let (path, depth) ← Act.ofNode call.node fun n => (n.path, n.frames.depth)
    return .ok (Script.formatList
      (path :: call.name :: flagField call.hidden :: Text.ofNat depth :: call.args))

/-- Does what a command does. -/
def performAction (e : Engine) (call : Call) : Action → Act Completion
  | .builtin b => call.builtin e b
  | .ensemble => Control.dispatch e call
  | .procedure name params body => call.procedure e name params body
  | .forward a => e.forward call a
  | .host action => hostAction call action

/-- Answers one request. -/
def step (e : Engine) : Request → Act Completion
  | .evaluate context id script => e.runEvaluate context id script
  | .perform call action => e.performAction call action

/-- Answers a request at some pace within some fuel, which bounds both how deep requests nest and how
often a loop turns. -/
def run (pace : Pace) : Nat → Request → Act Completion
  | 0, _ => throw .exhausted
  | fuel + 1, request => step ⟨fuel, run pace fuel, pace⟩ request

/-- More than any script uses that comes to an end. -/
def plenty : Nat := 1000000000

/-- The engine that answers every request that comes to an end, in time. -/
def standard : Engine := ⟨plenty, run .timely plenty, .timely⟩

end Engine

end InterpTree
