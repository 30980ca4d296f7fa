import InterpTree.Fault
import InterpTree.Text.Quoted

/-!
Workers. A worker runs work items one at a time, in the order in which it accepted them. Closing it
stops it from accepting more; items accepted before still run, with an ended context.
-/

namespace InterpTree

/-- A worker over items of type `ι`: the items waiting, the one that is running, whether the worker
takes no more work, and whether its loop has come to an end. -/
structure Worker (ι : Type) where
  queue : List (Text × ι) := []
  running : Option (Text × ι) := none
  closed : Bool := false
  exited : Bool := false
deriving DecidableEq

namespace Worker

variable {ι : Type}

/-- Hands an item to the worker. -/
def submit (name : Text) (item : Option ι) (w : Worker ι) : Except Fault (Worker ι) :=
  match item with
  | none => .error (.saying ("worker: nil work item " ++ Text.quoted name))
  | some item =>
    if w.closed then .error .workerClosed
    else .ok { w with queue := w.queue ++ [(name, item)] }

/-- Stops the worker from accepting work. -/
def close (w : Worker ι) : Worker ι := { w with closed := true }

/-- The loop takes the next item, if it is between items. -/
def take? (w : Worker ι) : Option ((Text × ι) × Worker ι) :=
  match w.running, w.queue with
  | none, item :: queue => some (item, { w with queue, running := some item })
  | _, _ => none

/-- The loop is done with the running item. -/
def finish (w : Worker ι) : Worker ι := { w with running := none }

/-- The loop ends once the worker is closed and nothing is left to run. -/
def exit? (w : Worker ι) : Option (Worker ι) :=
  if w.closed && w.running.isNone && w.queue.isEmpty && !w.exited then
    some { w with exited := true }
  else none

/-- How many items are waiting or running. -/
def pending (w : Worker ι) : Nat := w.queue.length + if w.running.isSome then 1 else 0

/-- Whether a call that waits for the work so far returns now. -/
def isFlushed (w : Worker ι) : Bool := (w.queue.isEmpty && w.running.isNone) || w.closed

end Worker

end InterpTree
