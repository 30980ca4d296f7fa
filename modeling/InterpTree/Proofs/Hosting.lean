import InterpTree.Engine.Run

/-!
Hosts that bring commands and guards of their own. What runs on an engine does not depend on a list of
them: the commands that tests of a host define, and the guards that policies name, are cases.
-/

namespace InterpTree

/-- The guards of the host: each decides on a case, or fails. -/
abbrev HostGuards := Policy → PolicyCase → Option (Act (Except Text Decision))

/-- The guards that policies name. -/
def Policy.named : HostGuards := fun p _ =>
  p.guard.map fun
    | .decide decision => return .ok decision
    | .fail message => return .error message

namespace Engine

/-! ### Commands of the host -/

/-- What the commands of a host do. They may make requests themselves. -/
abbrev Hosting := Engine → Call → HostAction → Act Completion

/-- Answers one request, where the commands of the host are others. -/
def stepHosted (hosting : Hosting) (e : Engine) : Request → Act Completion
  | .perform call (.host action) => hosting e call action
  | request => step e request

/-- Answers a request at some pace within some fuel, where the commands of the host are others. -/
def runHosted (hosting : Hosting) (pace : Pace) : Nat → Request → Act Completion
  | 0, _ => throw .exhausted
  | fuel + 1, request => stepHosted hosting ⟨fuel, runHosted hosting pace fuel, pace⟩ request

/-- The engine with some fuel where the commands of the host are others. -/
def hosted (hosting : Hosting) (pace : Pace) (fuel : Nat) : Engine :=
  ⟨fuel, runHosted hosting pace fuel, pace⟩

section

variable {hosting : Hosting} {pace : Pace}

theorem stepHosted_hostAction : stepHosted (fun _ => hostAction) = step := by
  funext e request
  unfold stepHosted
  split <;> rfl

theorem runHosted_hostAction : runHosted (fun _ => hostAction) pace = run pace := by
  funext fuel
  induction fuel with
  | zero => rfl
  | succ fuel ih =>
    funext request
    rw [runHosted, run, ih, stepHosted_hostAction]

theorem call_hosted (fuel : Nat) (r : Request) :
    (hosted hosting pace (fuel + 1)).call r = stepHosted hosting (hosted hosting pace fuel) r := rfl

end

/-! ### Operations under guards of the host -/

section

variable (e : Engine) (hosts : HostGuards) (context : Option Context)

/-- What a policy decides. -/
def decideWith (p : Policy) (case : PolicyCase) : Act Decision := do
  match hosts p case with
  | some guard =>
    match ← guard with
    | .ok decision => return decision
    | .error message =>
      Act.log .warning p.owner "policy guard failed" [field "error" message, field "policy" p.name]
      return .denied
  | none => e.decide context { p with guard := none } case

/-- Asks policies in order and gives the refusal of the first that denies. -/
def askWith (case : PolicyCase) : List Policy → Act (Option Fault)
  | [] => return none
  | p :: rest => do
    if ((← get).live? p.owner).isNone then askWith case rest
    else
      let decision ← e.decideWith hosts context p case
      Act.log .debug p.owner "policy checked"
        [field "policy" p.name, field "decision" decision.name, field "command" case.name]
      if decision = .denied then
        return some (.of .permissionDenied
          ("permission denied: " ++ p.name ++ " denied " ++ Text.quoted case.name))
      else askWith case rest

/-- Evaluates a script in the node at a path. -/
def evaluateInWith (caller : NodeId) (path script : Text) : Act Completion := do
  match (← get).resolve? caller path with
  | none => return .fail (.noInterpreter path)
  | some target =>
    let refusal ←
      if target = caller then pure none
      else do
        let policies ← Act.ofNode target fun n => n.policies.filter Policy.guardsEvaluation
        e.askWith hosts context { caller, target, name := "eval", script } policies
    match refusal with
    | some f => return .fail f
    | none =>
      let result ← inFrame target "eval" FrameFlags.evaluate (e.evaluate context target script)
      if result.isError && target ≠ caller then
        return result.annotate ("(in interp eval " ++ Text.quoted path ++ ")")
      else return result

/-- Runs a hidden command of the node at a path. -/
def invokeHiddenWith (caller : NodeId) (path name : Text) (args : List Text) (global : Bool) :
    Act Completion := do
  match ← Act.attempt (do
      Op.requirePrivilege caller "invoke hidden commands"
      Op.resolve caller path) with
  | .error f => return .fail f
  | .ok target =>
    match ← Act.ofNode target fun n => n.commands.hidden? name with
    | none =>
      return .fail (.of .notFound ("invalid hidden command name " ++ Text.quoted name))
    | some command =>
      let policies ← Act.ofNode target fun n =>
        n.policies.filter fun p => p.guardsCommand command
      match ← e.askWith hosts context { caller, target, name, args } policies with
      | some f => return .fail f
      | none =>
        let flags := FrameFlags.hidden + if global then FrameFlags.atGlobal else 0
        inFrame target ("invokehidden " ++ name) flags
          (e.call (.perform { context, node := target, name, args, hidden := true }
            command.action))

end

section

variable {e : Engine} {context : Option Context}

theorem decideWith_named (p : Policy) (case : PolicyCase) :
    e.decideWith Policy.named context p case = e.decide context p case := by
  unfold decideWith decide Policy.named
  cases p.guard with
  | none => rfl
  | some guard => cases guard <;> rfl

theorem askWith_named (case : PolicyCase) (policies : List Policy) :
    e.askWith Policy.named context case policies = e.askPolicies context case policies := by
  induction policies with
  | nil => rfl
  | cons p rest ih =>
    unfold askWith askPolicies
    rw [decideWith_named, ih]

/-- Under the guards that policies name these are the operations themselves. -/
theorem evaluateInWith_named :
    e.evaluateInWith Policy.named context = e.evaluateIn context := by
  funext caller path script
  unfold evaluateInWith
  simp only [askWith_named]
  rfl

theorem invokeHiddenWith_named :
    e.invokeHiddenWith Policy.named context = e.invokeHidden context := by
  funext caller path name args global
  unfold invokeHiddenWith
  simp only [askWith_named]
  rfl

end

end Engine

end InterpTree
