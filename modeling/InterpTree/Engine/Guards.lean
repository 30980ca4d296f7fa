import InterpTree.Act
import InterpTree.Tree.Path

/-!
Guarded operations: scripts and hidden commands that one interpreter runs in another. The policies
of the target decide first, in the order of installation; the first denial wins. A guard script runs
in the node that owns the policy, and a policy whose owner is gone decides nothing.
-/

namespace InterpTree

namespace Engine

/-- What a policy decides, with the authority of its owner. A guard that fails denies. -/
def decide (e : Engine) (context : Option Context) (p : Policy) (case : PolicyCase) :
    Act Decision := do
  match p.guard with
  | some (.decide decision) => return decision
  | some (.fail message) =>
    Act.log .warning p.owner "policy guard failed" [field "error" message, field "policy" p.name]
    return .denied
  | none =>
    if p.script.isEmpty then return .undecided
    else
      match context with
      | none => Act.crash "cannot create context from nil parent"
      | some context =>
        let result ← e.evaluate (some { context with deciding := some case }) p.owner p.script
        if result.isError then
          Act.log .warning p.owner result.trace [field "policy" p.name]
          return .denied
        else return .ofText result.value

/-- Asks policies in order and gives the refusal of the first that denies. -/
def askPolicies (e : Engine) (context : Option Context) (case : PolicyCase) :
    List Policy → Act (Option Fault)
  | [] => return none
  | p :: rest => do
    if ((← get).live? p.owner).isNone then e.askPolicies context case rest
    else
      let decision ← e.decide context p case
      Act.log .debug p.owner "policy checked"
        [field "policy" p.name, field "decision" decision.name, field "command" case.name]
      if decision = .denied then
        return some (.of .permissionDenied
          ("permission denied: " ++ p.name ++ " denied " ++ Text.quoted case.name))
      else e.askPolicies context case rest

/-- Runs an action inside a frame of a node. -/
def inFrame {α : Type} (id : NodeId) (name : Text) (flags : Nat) (act : Act α) : Act α := do
  match (← get).node? id with
  | none => act
  | some n =>
    let (marker, frames) := n.frames.push name flags
    Act.modifyNode id fun n => { n with frames }
    Act.ensuring
      (World.modifyNode id fun n => { n with frames := (n.frames.popThrough marker).2 }) act

/-- Evaluates a script in the node at a path. Another node's policies on evaluation decide
first. -/
def evaluateIn (e : Engine) (context : Option Context) (caller : NodeId) (path script : Text) :
    Act Completion := do
  match (← get).resolve? caller path with
  | none => return .fail (.noInterpreter path)
  | some target =>
    let refusal ←
      if target = caller then pure none
      else do
        let policies ← Act.ofNode target fun n => n.policies.filter Policy.guardsEvaluation
        e.askPolicies context { caller, target, name := "eval", script } policies
    match refusal with
    | some f => return .fail f
    | none =>
      let result ← inFrame target "eval" FrameFlags.evaluate (e.evaluate context target script)
      if result.isError && target ≠ caller then
        return result.annotate ("(in interp eval " ++ Text.quoted path ++ ")")
      else return result

/-- Runs a hidden command of the node at a path. The policies on that command decide first. -/
def invokeHidden (e : Engine) (context : Option Context) (caller : NodeId) (path name : Text)
    (args : List Text) (global : Bool) : Act Completion := do
  match ← Act.attempt (do
      Op.requirePrivilege caller "invoke hidden commands"
      Op.resolve caller path) with
  | .error f => return .fail f
  | .ok target =>
    match ← Act.ofNode target fun n => n.commands.hidden? name with
    | none =>
      return .fail (.of .notFound ("invalid hidden command name " ++ Text.quoted name))
    | some command =>
      let policies ← Act.ofNode target fun n =>
        n.policies.filter fun p => p.guardsCommand command
      match ← e.askPolicies context { caller, target, name, args } policies with
      | some f => return .fail f
      | none =>
        let flags := FrameFlags.hidden + if global then FrameFlags.atGlobal else 0
        inFrame target ("invokehidden " ++ name) flags
          (e.call (.perform { context, node := target, name, args, hidden := true }
            command.action))

end Engine

end InterpTree
