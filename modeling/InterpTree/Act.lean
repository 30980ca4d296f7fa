import InterpTree.World

/-!
Actions: computations that run scripts. An action changes the world and comes to a value, unless it
stops: because the host crashed, or because it was given too little fuel. Whoever must tidy up does
so in either case.

Actions run other scripts and commands through a caller, which they are given. So each kind of
command is a plain function, and only the place that ties them together is recursive.

Workers go on while others wait. One that sleeps for longer than the call that waits is overtaken by
it: the worker is left in the middle of its item, and so has nothing tidied up yet.
-/

namespace InterpTree

/-- What ends an action without a value. -/
inductive Stop
  | crash (message : Text)
  | exhausted
  /-- The worker that runs the action is overtaken. It has yet to tidy up so many times. -/
  | overtaken (pending : Nat)
deriving DecidableEq

/-- What becomes of a call that waits, if a worker that goes on meanwhile is to sleep for longer than
the call. -/
inductive Pace
  /-- The call waits for the worker. -/
  | patient
  /-- The call goes on in time, and overtakes the worker. -/
  | timely
deriving DecidableEq

/-- A computation that runs scripts. -/
abbrev Act := EStateM Stop World

/-- Where the life of a context comes from. -/
inductive Lifetime
  | unlimited
  | over
  /-- The context ends with a node. -/
  | node (id : NodeId)
deriving DecidableEq

/-- The context of a call: how long it lives, the operation that a guard is deciding on, and the
node on whose worker the call runs. -/
structure Context where
  lifetime : Lifetime
  deciding : Option PolicyCase := none
  worker : Option NodeId := none
deriving DecidableEq

namespace Context

def background : Context := ⟨.unlimited, none, none⟩

def ended : Context := ⟨.over, none, none⟩

def ofNode (id : NodeId) : Context := ⟨.node id, none, none⟩

/-- The context of work on the worker of a node. -/
def ofWorker (id : NodeId) : Context := ⟨.node id, none, some id⟩

/-- Whether the context has ended. -/
def hasEnded (c : Context) (w : World) : Bool :=
  match c.lifetime with
  | .unlimited => false
  | .over => true
  | .node id => (w.node? id).any Node.ended

end Context

/-- A call of a command: where it runs, under which name and with which arguments. -/
structure Call where
  /-- Hosts may call commands without any context. -/
  context : Option Context
  node : NodeId
  name : Text
  args : List Text
  hidden : Bool := false
deriving DecidableEq

/-- What actions ask their caller to run: a script in a node, or what a command does. A script
without a context runs in that of the node. -/
inductive Request
  | evaluate (context : Option Context) (node : NodeId) (script : Text)
  | perform (call : Call) (action : Action)
deriving DecidableEq

/-- How an action runs others: through `call`, with loops of at most `turns` turns, and waiting at
some pace. -/
structure Engine where
  turns : Nat
  call : Request → Act Completion
  pace : Pace

/-- The crash of a use of a missing context. -/
def missingContext : Text := "runtime error: invalid memory address or nil pointer dereference"

namespace Act

/-- Crashes the host. -/
def crash {α : Type} (message : Text) : Act α := throw (.crash message)

/-- The outcome of an operation that may be refused. -/
def attempt {α : Type} (op : Op α) : Act (Except Fault α) := fun w =>
  match op w with
  | .ok a w => .ok (.ok a) w
  | .error f w => .ok (.error f) w

/-- An operation that gives a text, as a completion. -/
def perform (op : Op Text) : Act Completion := do return .ofExcept (← attempt op)

/-- Runs an action and then, however it ended, tidies up. An overtaken worker has not ended it. -/
def ensuring {α : Type} (cleanup : World → World) (act : Act α) : Act α := fun w =>
  match act w with
  | .ok a w => .ok a (cleanup w)
  | .error (.overtaken pending) w => .error (.overtaken (pending + 1)) w
  | .error stop w => .error stop (cleanup w)

/-- Runs an action; a crash of it is an outcome like any other. -/
def guarded {α : Type} (act : Act α) : Act (Except Text α) := fun w =>
  match act w with
  | .ok a w => .ok (.ok a) w
  | .error (.crash message) w => .ok (.error message) w
  | .error stop w => .error stop w

/-- Something read off a node that was made. -/
def ofNode {α : Type} [Inhabited α] (id : NodeId) (f : Node → α) : Act α := do
  return (((← get).node? id).map f).getD default

/-- Changes one node. -/
def modifyNode (id : NodeId) (f : Node → Node) : Act Unit := modify (World.modifyNode id f)

/-- Keeps a log record about a node. -/
def log (level : Level) (id : NodeId) (message : Text) (fields : List (Text × Text)) : Act Unit :=
  modify (World.logNode level id message fields)

end Act

namespace Engine

/-- Runs a script in a node. -/
def evaluate (e : Engine) (context : Option Context) (id : NodeId) (script : Text) :
    Act Completion :=
  e.call (.evaluate context id script)

/-- Runs the visible command of a name in a node. -/
def invoke (e : Engine) (context : Option Context) (id : NodeId) (name : Text)
    (args : List Text) : Act Completion := do
  match ((← get).node? id).bind fun n => n.commands.visible? name with
  | none => return .fail (.of .notFound ("invalid command name " ++ Text.quoted name))
  | some c => e.call (.perform { context, node := id, name, args } c.action)

end Engine

end InterpTree
