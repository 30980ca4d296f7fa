import InterpTree.Worker

/-!
Errands: work items that a host hands to a worker of its own. An errand notes that it ran, and may
wait at a gate, fail or crash; the faults of errands are noted where they arise.
-/

namespace InterpTree

/-- What an errand does. -/
inductive Errand
  /-- Notes whether its context has ended. -/
  | look
  /-- Gives back the fault of its context, if that has ended. -/
  | askContext
  | fail (text : Text)
  | crash (text : Text)
  /-- Waits until the gate is open. -/
  | pass
deriving DecidableEq

/-- A note about an errand. -/
inductive ErrandNote
  | ran (name : Text)
  | looked (name : Text) (ended : Bool)
  | failed (name : Text) (fault : Fault)
deriving DecidableEq

/-- A worker with errands, a gate in front of some of them, and the notes so far. -/
structure ErrandDesk where
  worker : Worker Errand := {}
  gateOpen : Bool := false
  notes : List ErrandNote := []

namespace ErrandDesk

/-- The notes that an errand leaves. -/
def notesOf (ended : Bool) (name : Text) : Errand → List ErrandNote
  | .look => [.looked name ended]
  | .askContext => .ran name :: if ended then [.failed name .contextEnded] else []
  | .fail text => [.ran name, .failed name (.saying text)]
  | .crash text => [.ran name, .failed name (.saying ("panic: " ++ text))]
  | .pass => [.ran name]

/-- The worker does the errands waiting for it, in order, up to one that waits at a closed gate. -/
def serve (d : ErrandDesk) : List (Text × Errand) → ErrandDesk
  | [] => { d with worker := { d.worker with queue := [], running := none } }
  | (name, errand) :: rest =>
    if errand = .pass && !d.gateOpen then
      { d with worker := { d.worker with queue := rest, running := some (name, errand) } }
    else
      { d with notes := d.notes ++ notesOf d.worker.closed name errand }.serve rest

/-- The worker goes on as far as it can. -/
def settle (d : ErrandDesk) : ErrandDesk := d.serve (d.worker.running.toList ++ d.worker.queue)

/-- Hands an errand to the worker. -/
def submit (name : Text) (errand : Option Errand) (d : ErrandDesk) : Except Fault ErrandDesk :=
  (d.worker.submit name errand).map fun worker => { d with worker }.settle

/-- Opens the gate for good. -/
def openGate (d : ErrandDesk) : ErrandDesk := { d with gateOpen := true }.settle

/-- Closes the worker. Errands that are still waiting find their context ended. -/
def close (d : ErrandDesk) : ErrandDesk := { d with worker := d.worker.close }.settle

end ErrandDesk

end InterpTree
