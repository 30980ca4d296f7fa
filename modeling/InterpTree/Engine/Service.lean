import InterpTree.Act
import InterpTree.Engine.Clock
import InterpTree.Tree.Teardown

/-!
One turn of a service loop: it serves the first event that is due, or finds out how long to sleep,
or ends the loop. The loop itself is the same whether a caller waits for it or a worker runs it.
-/

namespace InterpTree

/-- What a service loop does after a turn. -/
inductive Turn
  | again
  /-- Nothing is due before an instant. -/
  | sleep (deadline : Int)
  | done (outcome : Except Fault Unit)

namespace Engine

/-- Hands a fault of background work to the handler of a node. Faults that nobody handles are
logged. -/
def reportBackground (e : Engine) (context : Option Context) (id : NodeId) (work : Text)
    (f : Fault) : Act Unit := do
  match (← get).node? id with
  | none => return
  | some n =>
    match n.backgroundError with
    | [] => modify (World.logUnhandled id work f)
    | command :: bound =>
      if n.dead || (n.commands.visible? command).isNone then modify (World.logUnhandled id work f)
      else
        let result ← e.invoke context id command (bound ++ [f.text])
        if result.isError then
          Act.log .error id "background error handler failed"
            [field "error" f.text, field "work" work,
              field "handler" (Text.words (command :: bound)),
              field "handler_error" result.trace]

/-- How a service loop goes on when no event is due: it ends, looks again, or sleeps until an event
is due, though no longer than the sleep time of the node. -/
def idleTurn (options : ServiceOptions) (now : Int) (n : Node) : Turn :=
  if !options.wait then .done (.ok ())
  else
    match n.queue.nextDue options.floor with
    | none => .done (.ok ())
    | some due =>
      let sleep := n.cancel.limits.sleepTime
      let wait := if 0 < sleep && sleep < due - now then sleep else due - now
      if wait ≤ 0 then .again else .sleep (now + wait)

/-- Calls the hook of the user interface, if there is one and it is asked for. -/
def noteEvent (id : NodeId) (options : ServiceOptions) : Act Unit := do
  if options.userInterface && (← get).host.hasUserInterface then
    let path ← Act.ofNode id Node.path
    modify (World.modifyHost fun h => { h with uiNotes := h.uiNotes ++ [path] })

/-- Runs the script of an event that was taken off the schedule of a node. -/
def serveEvent (e : Engine) (context : Context) (id : NodeId) (options : ServiceOptions)
    (report : ServiceReport) (event : Event) : Act (Turn × ServiceReport) := do
  let result ← e.evaluate (some context) id event.script
  let report := { report with serviced := report.serviced + 1, last := result }
  noteEvent id options
  match result.fault? with
  | none => return (.again, report)
  | some f =>
    let report := { report with errors := report.errors + 1 }
    if options.background then
      e.reportBackground (some context) id ("event " ++ event.id.text) f
      return (if options.stopOnError then .done (.ok ()) else .again, report)
    else
      Act.log .warning id result.trace
        [field "service" "events", field "event" event.id.text]
      return (if options.stopOnError then .done (.error f) else .again, report)

/-- One turn of a service loop on a node. -/
def serviceTurn (e : Engine) (context : Context) (id : NodeId) (options : ServiceOptions)
    (report : ServiceReport) : Act (Turn × ServiceReport) := do
  modify World.pass
  let w ← get
  match w.node? id with
  | none => return (.done (.ok ()), report)
  | some n =>
    if 0 < options.limit && options.limit ≤ report.serviced then
      return (.done (.ok ()), report)
    else if context.hasEnded w then return (.done (.error .contextEnded), report)
    else if n.ended then return (.done (.ok ()), report)
    else if n.cancel.isCanceled then
      return (.done (.ok ()), { report with canceled := true })
    else
      match n.queue.popDue w.clock options.floor with
      | none => return (idleTurn options w.clock n, report)
      | some (event, queue) =>
        Act.modifyNode id fun n => { n with queue }
        e.serveEvent context id options report event

end Engine

/-- What a service loop does on its way out. -/
def ServiceOptions.leave (options : ServiceOptions) (id : NodeId) (w : World) : World :=
  if options.noCancel then w.modifyNode id fun n => { n with cancel := (n.cancel.reset true).2 }
  else w

namespace Node

/-- Whether a service loop that sleeps on a node has to look again before its time. -/
def isRoused (n : Node) : Bool := n.ended || n.cancel.signaled || n.queue.notified

/-- A roused service loop takes the notice that something was scheduled, if that is what woke it. -/
def takeNotice (n : Node) : Node :=
  if n.ended || n.cancel.signaled then n
  else { n with queue := { n.queue with notified := false } }

end Node

namespace Op

/-- Hands a service loop to the worker of a node, which is started if there is none. -/
def serviceDedicated (id : NodeId) (options : ServiceOptions) : Op Unit := do
  let n ← node id
  let refused (f : Fault) : Fault :=
    .because .internal "failed to queue event servicing work item" f
  require (!n.dead) (refused .workerClosed)
  let options := { options with wait := true, errorOnEmpty := false, background := true }
  match (n.worker.getD {}).submit "service" (some { options }) with
  | .error f => throw (refused f)
  | .ok worker => change (World.modifyNode id fun n => { n with worker := some worker })

end Op

end InterpTree
