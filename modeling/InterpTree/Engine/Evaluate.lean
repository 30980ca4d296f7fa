import InterpTree.Act
import InterpTree.Engine.Clock
import InterpTree.Script.Reference

/-!
The evaluation of scripts. Before each command the evaluator meets a posted cancellation and looks
whether its context has ended; then it substitutes the words and runs the command. The first command
that does not complete well ends the script.
-/

namespace InterpTree

/-- The refusal to nest any deeper. -/
def tooDeep : Completion := .failWith "too many nested evaluations (infinite loop?)"

def Fault.noVariable (name : Text) : Fault :=
  .of .notFound ("can't read " ++ Text.quoted name ++ ": no such variable")

namespace Act

/-- The evaluator of a node meets a posted cancellation. -/
def checkpoint (id : NodeId) : Act (Option CancelReason) := do
  match (← get).node? id with
  | none => return none
  | some n =>
    if n.cancel.state = .idle then return none
    else
      let (met, cancel) := n.cancel.checkpoint
      modifyNode id fun n => { n with cancel }
      return met

end Act

namespace Engine

/-- The value of the pieces of a word, one after the other, or the completion of the bracketed
script that stopped them. -/
def substitutePieces (e : Engine) (context : Option Context) (id : NodeId) :
    List Script.Piece → Act (Except Completion Text)
  | [] => return .ok []
  | piece :: rest => do
    let value : Except Completion Text ←
      match piece with
      | .plain bytes => pure (.ok bytes)
      | .reference name =>
        match ← Act.ofNode id fun n => n.vars.get? name with
        | some value => pure (.ok value)
        | none => pure (.error (.fail (.noVariable name)))
      | .bracketed source => do
        let result ← e.evaluate context id source
        pure (if result.status = .ok then .ok result.value else .error result)
      | .unclosed => pure (.error (.failWith "missing close-bracket"))
    match value with
    | .error stopped => return .error stopped
    | .ok value => return (← e.substitutePieces context id rest).map (value ++ ·)

/-- A text with backslashes, variables and bracketed scripts substituted. -/
def substitute (e : Engine) (context : Option Context) (id : NodeId) (s : Text) :
    Act (Except Completion Text) :=
  e.substitutePieces context id (Script.pieces s)

/-- The words of a command with everything substituted that is not in braces. -/
def substituteWords (e : Engine) (context : Option Context) (id : NodeId) :
    List Script.Word → Act (Except Completion (List Text))
  | [] => return .ok []
  | word :: rest => do
    let value ←
      if word.form = .braced then pure (.ok word.text) else e.substitute context id word.text
    match value with
    | .error stopped => return .error stopped
    | .ok value => return (← e.substituteWords context id rest).map (value :: ·)

/-- How much of a command an error trail shows. -/
def shownSource (source : Text) : Text :=
  if source.length ≤ 60 then source else source.take 60 ++ "..."

/-- A completion on its way out of a command: an error notes the command. -/
def leaveCommand (command : Script.Command) (c : Completion) : Completion :=
  if c.isError then c.annotate ("while executing " ++ Text.quoted (shownSource command.source))
  else c

/-- Runs commands in order; `last` is the completion of the one before. -/
def runCommands (e : Engine) (context : Context) (id : NodeId) (last : Completion) :
    List Script.Command → Act Completion
  | [] => return last
  | command :: rest => do
    modify World.pass
    match ← Act.checkpoint id with
    | some reason => return .fail (.canceled reason)
    | none =>
      if context.hasEnded (← get) then return .fail .contextEnded
      else
        match ← e.substituteWords (some context) id command.words with
        | .error stopped => return leaveCommand command stopped
        | .ok [] => e.runCommands context id last rest
        | .ok (name :: args) =>
          let result ← e.invoke (some context) id name args
          if result.status = .ok then e.runCommands context id result rest
          else return leaveCommand command result

/-- Evaluates a script in a node whose depth counts this evaluation already. -/
def runScript (e : Engine) (context : Context) (id : NodeId) (script : Text) :
    Act Completion := do
  let (limit, depth) ← Act.ofNode id fun n => (n.cancel.limits.recursionLimit, n.cancel.depth)
  if 0 < limit && limit < depth then return tooDeep
  else
    match Script.parse script with
    | .error f => return .fail (.because .invalidArgument f.message (.malformed f))
    | .ok commands => e.runCommands context id {} commands

/-- A completion within the limit on the length of results. -/
def limitResult (limit : Int) (c : Completion) : Completion :=
  if 0 < limit && c.status = .ok && limit < c.value.length then
    .fail (.of .invalidArgument
      ("result of " ++ Text.ofNat c.value.length ++ " bytes exceeds limit of " ++
        Text.ofInt limit))
  else c

/-- Evaluates a script in a node. -/
def runEvaluate (e : Engine) (context : Option Context) (id : NodeId) (script : Text) :
    Act Completion := do
  let w ← get
  match w.node? id with
  | none => return .fail (.noInterpreter [])
  | some n =>
    if n.dead then return .fail (.noInterpreter n.path)
    else if !w.settings.hasEvaluator then
      return .fail (.of .internal "no evaluator configured")
    else
      Act.modifyNode id fun n => { n with cancel := n.cancel.enter w.clock }
      Act.ensuring (World.modifyNode id fun n => { n with cancel := n.cancel.exit }) do
        let result ← e.runScript (context.getD (.ofNode id)) id script
        return limitResult (← Act.ofNode id fun n => n.cancel.limits.resultLimit) result

end Engine

end InterpTree
