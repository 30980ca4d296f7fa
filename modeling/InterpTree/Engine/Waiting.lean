import InterpTree.Engine.Service

/-!
Waiting. While one call waits, watchdogs look and workers go on with their work, each at its instant
and the earliest first; then the clock moves on.

The script of an item may wait itself, and for longer than the call that lets the worker go on. A
timely call goes on nevertheless, and finds the worker in the middle of its item. When that would go
on in turn, the run is not followed any further: that is, from the next wait on, or once its node is
released by somebody who waits for its worker to end.
-/

namespace InterpTree

namespace Node

/-- When the worker of a node can go on, if it has something to do. -/
def workDue? (now : Int) (n : Node) : Option Int :=
  if n.busy then none
  else
    match n.worker with
    | none => none
    | some worker =>
      match worker.running with
      | none => if worker.queue.isEmpty then none else some now
      | some (_, job) =>
        match job.wakeAt with
        | none => some now
        | some instant => some (if n.isRoused then now else instant)

/-- The node with its worker changed, also one that is on its way out. -/
def mapWorker (f : Worker ServiceJob → Worker ServiceJob) (n : Node) : Node :=
  { n with worker := n.worker.map f, retiring := n.retiring.map f }

end Node

/-- What may happen while somebody waits. -/
inductive Activity
  | look (id : NodeId)
  | work (id : NodeId)
deriving DecidableEq

/-- The node that does it. -/
def Activity.node : Activity → NodeId
  | look id | work id => id

namespace World

/-- What node `n` is going to do by itself, and when. -/
def activitiesOf (now : Int) (n : Node) : List (Int × Activity) :=
  (n.cancel.watchdog.map fun instant => (max now instant, Activity.look n.id)).toList ++
    ((n.workDue? now).map fun instant => (max now instant, Activity.work n.id)).toList

/-- The earliest of some activities; of several at one instant the first. -/
def earliest : List (Int × Activity) → Option (Int × Activity)
  | [] => none
  | a :: rest =>
    match earliest rest with
    | none => some a
    | some b => if b.1 < a.1 then some b else some a

/-- What happens next, if anything does. -/
def nextActivity (w : World) : Option (Int × Activity) :=
  earliest (w.nodes.toList.flatMap (activitiesOf w.clock))

/-- What happens next, if that is by a deadline. -/
def nextBefore (w : World) (deadline : Option Int) : Option (Int × Activity) :=
  w.nextActivity.filter fun next => deadline.all (next.1 ≤ ·)

/-- Somebody waits until a deadline. -/
def awaited (deadline : Option Int) (w : World) : World :=
  { w with horizon := .merge min deadline w.horizon }

/-- Whether somebody who waits goes on before an instant, or before the end of time. -/
def isBehind (w : World) (instant : Option Int) : Bool :=
  w.horizon.any fun horizon => instant.all (horizon < ·)

/-- The worker of a node is left in the middle of its item. -/
def overtake (id : NodeId) (pending : Nat) (w : World) : World :=
  w.modifyNode id fun n => { n with unfinished := some pending }

/-- Whether a worker was overtaken in the middle of an item. -/
def hasUnfinished (w : World) : Bool := w.nodes.any fun n => n.unfinished.isSome

/-- Whether a node was released whose worker was overtaken in the middle of an item. -/
def joinsUnfinished (w : World) : Bool :=
  w.nodes.any fun n => n.unfinished.isSome && n.retiring.isSome

end World

namespace Pace

/-- What becomes of a worker that is going to sleep while somebody who waits goes on. -/
def oversleep : Pace → Act Unit
  | patient => pure ()
  | timely => throw (.overtaken 0)

/-- Whoever releases a node waits for its worker to end, also in the middle of an item. -/
def settled {α : Type} (act : Act α) : Pace → Act α
  | patient => act
  | timely => do
    let a ← act
    if (← get).joinsUnfinished then throw .exhausted else return a

end Pace

namespace Engine

/-- How far a worker got with a service loop. -/
inductive Progress
  | asleep (job : ServiceJob)
  | ended (report : ServiceReport) (outcome : Except Fault Unit)

/-- Turns of a service loop until it sleeps or ends. -/
def workTurns (e : Engine) (id : NodeId) (options : ServiceOptions) :
    Nat → ServiceReport → Act Progress
  | 0, _ => throw .exhausted
  | turns + 1, report => do
    match ← e.serviceTurn (.ofWorker id) id options report with
    | (.again, report) => e.workTurns id options turns report
    | (.sleep instant, report) => return .asleep { options, report, wakeAt := some instant }
    | (.done outcome, report) => return .ended report outcome

/-- Begins a service loop on a worker, or goes on with it. -/
def workJob (e : Engine) (id : NodeId) (job : ServiceJob) : Act Progress := do
  match (← get).node? id with
  | none => return .ended {} (.ok ())
  | some n =>
    if job.wakeAt.isNone && n.dead then return .ended {} (.error (.noInterpreter n.path))
    else
      if job.wakeAt.isSome then Act.modifyNode id Node.takeNotice
      e.workTurns id job.options e.turns job.report

/-- What a worker does about a fault of its work. -/
def workFailed (e : Engine) (id : NodeId) (work : Text) (f : Fault) : Act Unit :=
  if f.isContextEnded || f.cancelReason?.isSome then modify (World.logCanceledWork id work)
  else e.reportBackground (some (.ofNode id)) id work f

/-- A worker that is done with an item. One whose node was released runs what it has left and ends;
only then the registries of the node are dropped. -/
def workDone (id : NodeId) : Act Unit := do
  Act.modifyNode id fun n => { n.mapWorker Worker.finish with busy := false }
  match ((← get).node? id).bind Node.retiring with
  | none => return
  | some worker =>
    Act.modifyNode id fun n => { n with retiring := none }
    modify fun w => (w.joinWorker id worker).drop id

/-- The worker of a node runs its item until that sleeps or ends. -/
def runItem (e : Engine) (id : NodeId) (work : Text) (job : ServiceJob) : Act Unit := do
  Act.modifyNode id fun n => { n with busy := true }
  match ← Act.guarded (e.workJob id job) with
  | .ok (.asleep job) =>
    Act.modifyNode id fun n =>
      { n.mapWorker fun worker => { worker with running := some (work, job) } with busy := false }
    if (((← get).node? id).bind Node.retiring).isSome then
      modify (World.abandonJob id work job)
      workDone id
  | .ok (.ended report outcome) =>
    modify (job.options.leave id)
    modify (World.logServiceEnd id report)
    match outcome with
    | .ok () => pure ()
    | .error f => e.workFailed id work f
    workDone id
  | .error message =>
    modify (job.options.leave id)
    e.workFailed id work (.saying ("panic: " ++ message))
    workDone id

/-- The worker of a node goes on with its item, or takes the next. -/
def work (e : Engine) (id : NodeId) : Act Unit := do
  match ((← get).node? id).bind Node.worker with
  | none => return
  | some worker =>
    match worker.running with
    | some (name, job) => e.runItem id name job
    | none =>
      match worker.take? with
      | none => return
      | some ((name, job), worker) =>
        Act.modifyNode id fun n => { n with worker := some worker }
        e.runItem id name job

/-- Something that happens while somebody waits. -/
def happen (e : Engine) : Activity → Act Unit
  | .look id => modify (World.lookWatchdog id)
  | .work id => e.work id

/-- Something that happens while a call waits until a deadline. A worker that sleeps for longer than
the call is overtaken. -/
def happenBefore (e : Engine) (deadline : Option Int) (activity : Activity) : Act Unit := fun w =>
  match e.happen activity (w.awaited deadline) with
  | .ok () v => .ok () { v with horizon := w.horizon }
  | .error (.overtaken pending) v =>
    .ok () (World.overtake activity.node pending { v with horizon := w.horizon })
  | .error stop v => .error stop { v with horizon := w.horizon }

/-- Time passes until an instant. Without one there is no end to it. -/
def elapse : Option Int → Act Unit
  | none => throw .exhausted
  | some instant => modify (World.reach instant)

/-- Sleeps until an instant, unless somebody who waits goes on before. -/
def sleepUntil (e : Engine) (instant : Option Int) : Act Unit := do
  if (← get).isBehind instant then e.pace.oversleep
  elapse instant

/-- Waits until a deadline, or until the world rouses the waiting call. -/
def waitTurns (e : Engine) (deadline : Option Int) (roused : World → Bool) : Nat → Act Unit
  | 0 => throw .exhausted
  | turns + 1 => do
    let w ← get
    if roused w then return
    else
      match w.nextBefore deadline with
      | none => e.sleepUntil deadline
      | some (instant, activity) =>
        -- The worker that was overtaken may go on by then.
        if w.hasUnfinished then throw .exhausted
        else
          e.sleepUntil (some instant)
          e.happenBefore deadline activity
          e.waitTurns deadline roused turns

/-- Waits until a deadline, or until the world rouses the waiting call. -/
def wait (e : Engine) (deadline : Option Int) (roused : World → Bool) : Act Unit := do
  let w ← get
  if w.hasUnfinished && !roused w then throw .exhausted
  else e.waitTurns deadline roused e.turns

/-- Waits until an instant, or until the world rouses the waiting call. -/
def waitUntil (e : Engine) (deadline : Int) (roused : World → Bool) : Act Unit :=
  e.wait (some deadline) roused

/-- Waits until something holds of the world. -/
def waitFor (e : Engine) (holds : World → Bool) : Act Unit := e.wait none holds

/-- Waits until the worker of a node has run all that was submitted to it. -/
def waitWorker (e : Engine) (id : NodeId) : Act Unit :=
  e.waitFor fun w => ((w.node? id).bind Node.worker).all Worker.isFlushed

/-- Turns of a service loop, sleeping between them where nothing is due. -/
def serviceTurns (e : Engine) (context : Context) (id : NodeId) (options : ServiceOptions) :
    Nat → ServiceReport → Act (ServiceReport × Except Fault Unit)
  | 0, _ => throw .exhausted
  | turns + 1, report => do
    match ← e.serviceTurn context id options report with
    | (.again, report) => e.serviceTurns context id options turns report
    | (.done outcome, report) => return (report, outcome)
    | (.sleep instant, report) =>
      e.waitUntil instant fun w => context.hasEnded w || (w.node? id).any Node.isRoused
      if (← get).clock < instant then Act.modifyNode id Node.takeNotice
      e.serviceTurns context id options turns report

/-- Serves the scheduled scripts of a node. -/
def serviceEvents (e : Engine) (context : Option Context) (id : NodeId)
    (options : ServiceOptions) : Act (ServiceReport × Except Fault Unit) := do
  match (← get).node? id with
  | none => return ({}, .error (.noInterpreter []))
  | some n =>
    if n.dead then return ({}, .error (.noInterpreter n.path))
    else if options.errorOnEmpty && n.queue.size = 0 then
      return ({}, .error (.of .notFound "queue empty"))
    else
      Act.ensuring (options.leave id)
        (e.serviceTurns (context.getD (.ofNode id)) id options e.turns {})

end Engine

end InterpTree
