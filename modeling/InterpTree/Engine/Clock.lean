import InterpTree.Tree.Create
import InterpTree.Text.Duration

/-!
The passing of time. The clock stands still except where something waits, and for the moment that
every command takes; watchdogs look whenever the clock passes the instant they are set to.
-/

namespace InterpTree

namespace World

/-- The watchdog of a node looks. -/
def lookWatchdog (id : NodeId) (w : World) : World :=
  match w.node? id with
  | none => w
  | some n =>
    let (look, c) := n.cancel.tick w.clock
    let w := w.modifyNode id fun n => { n with cancel := c }
    match look with
    | .quiet => w
    | .fired =>
      (w.logNode .debug id "cancellation posted"
          [field "unwind" (flagField true), field "force" (flagField false)]).logNode
        .warning id "watchdog timeout" [field "timeout" (Duration.text c.limits.timeout)]
    | .refused f =>
      w.logNode .debug id "watchdog cancellation skipped" [field "error" f.text]

/-- Every watchdog that is due looks. -/
def lookDue (w : World) : World :=
  w.nodes.foldl
    (fun w n => if n.cancel.watchdog.any (· ≤ w.clock) then w.lookWatchdog n.id else w) w

/-- How long one command takes. -/
def moment : Int := 1000

/-- The world a moment later. -/
def pass (w : World) : World := { w with clock := w.clock + moment }.lookDue

/-- The world not before an instant. -/
def reach (instant : Int) (w : World) : World := { w with clock := max w.clock instant }

/-- Starts the watchdog of a node and tells whether there was none before. -/
def startWatchdog (id : NodeId) (w : World) : Bool × World :=
  match w.node? id with
  | none => (false, w)
  | some n =>
    let (started, c) := n.cancel.startWatchdog w.clock
    if started then
      (true, (w.modifyNode id fun n => { n with cancel := c }).logNode .debug id
        "watchdog started" [])
    else (false, w)

/-- The first instant of the year 1. To schedule something then is to schedule it now. -/
def noInstant : Int := -62135596800 * Duration.second

/-- Schedules a script in a node, at an instant given outright, at one reckoned from the clock, or
now. Gives the identifier of the event, which is drawn unless it is given. -/
def enqueue (id : NodeId) (given : Option EventId) (due : Option Int) (outright : Bool)
    (script : Text) (priority : Int) (w : World) : EventId × World :=
  let (event, w) :=
    match given with
    | some event => (event, w)
    | none => w.drawId
  let due := due.filter fun instant => instant ≠ noInstant
  (event, w.modifyNode id fun n =>
    { n with
      queue := n.queue.enqueue event (due.getD w.clock) (outright && due.isSome) script priority })

end World

end InterpTree
