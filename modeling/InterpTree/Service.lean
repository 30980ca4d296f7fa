import InterpTree.Completion
import InterpTree.Worker

/-!
What a service loop is asked to do, and what it reports.
-/

namespace InterpTree

/-- How scheduled scripts are served. -/
structure ServiceOptions where
  /-- Sleep until events become due, instead of returning when none is. -/
  wait : Bool := false
  /-- The least priority served. -/
  floor : Int := 0
  /-- The most events served, if positive. -/
  limit : Int := 0
  /-- Clear any cancellation on return. -/
  noCancel : Bool := false
  stopOnError : Bool := false
  errorOnEmpty : Bool := false
  /-- Call the hook of the user interface after each event. -/
  userInterface : Bool := false
  /-- Hand errors to the background error handler instead of the caller. -/
  background : Bool := false
deriving DecidableEq

/-- Serve every due event and stop at the first error. -/
def ServiceOptions.standard : ServiceOptions := { floor := -1, stopOnError := true }

/-- What a service loop did. -/
structure ServiceReport where
  serviced : Nat := 0
  errors : Nat := 0
  last : Completion := {}
  canceled : Bool := false
deriving DecidableEq

/-- A service loop on a dedicated worker: what it was asked to do, what it has done so far, and
until when it sleeps. -/
structure ServiceJob where
  options : ServiceOptions
  report : ServiceReport := {}
  wakeAt : Option Int := none
deriving DecidableEq

end InterpTree
