import InterpTree.Limits

/-!
Cooperative cancellation. A cancellation is posted on an interpreter and met by its evaluator at
the next checkpoint; nothing is ever interrupted. An unwinding cancellation fails every checkpoint
until it is reset, any other only the first. The watchdog of a controller posts an unwinding
cancellation when an evaluation shows no activity for the length of the timeout.

Instants are nanoseconds on the clock of the caller.
-/

namespace InterpTree

inductive CancelState
  | idle
  | pending
  | consumed
deriving DecidableEq

def CancelState.name : CancelState → Text
  | .idle => "idle"
  | .pending => "pending"
  | .consumed => "consumed"

/-- The state with a code. -/
def CancelState.ofCode (code : Int) : CancelState :=
  if code = 1 then .pending else if code = 2 then .consumed else .idle

/-- The cancellation controller of an interpreter. `signaled` tells whether waiters have been told
of a cancellation; `watchdog` is the instant of the next look of a running watchdog. `unwinds`
counts the unwinding cancellations ever posted; it is history that nothing reads. -/
structure Cancellation where
  state : CancelState := .idle
  reason : CancelReason := {}
  signaled : Bool := false
  depth : Nat := 0
  activity : Int := 0
  limits : Limits := Limits.standard
  watchdog : Option Int := none
  unwinds : Nat := 0
deriving DecidableEq

namespace Cancellation

/-- A fresh controller. -/
def start (limits : Limits) (now : Int) : Cancellation := { limits, activity := now }

/-- Whether a cancellation is posted and not yet met. -/
def isPending (c : Cancellation) : Bool := c.state = .pending

/-- Whether the next checkpoint fails. -/
def isCanceled (c : Cancellation) : Bool :=
  c.state = .pending || (c.state = .consumed && c.reason.unwind)

/-- Posts a cancellation. A pending one is replaced only by force. -/
def cancel (force unwind : Bool) (message : Text) (c : Cancellation) : Except Fault Cancellation :=
  if c.isPending && !force then
    .error (.of .alreadyPending "cancellation already pending")
  else
    .ok { c with
      state := .pending, reason := ⟨message, unwind, force⟩, signaled := true
      unwinds := if unwind then c.unwinds + 1 else c.unwinds }

/-- The controller without any cancellation. -/
def clear (c : Cancellation) : Cancellation :=
  { c with state := .idle, reason := {}, signaled := false }

/-- Clears a cancellation and tells whether there was one to clear. While an evaluation is running
it stays, unless `ignorePending` is set. -/
def reset (ignorePending : Bool) (c : Cancellation) : Bool × Cancellation :=
  if c.state = .idle then (false, c)
  else if c.depth > 0 && !ignorePending then (false, c)
  else (true, c.clear)

/-- What the evaluator does between two commands: it meets a pending cancellation. -/
def checkpoint (c : Cancellation) : Option CancelReason × Cancellation :=
  match c.state with
  | .idle => (none, c)
  | .pending => (some c.reason, { c with state := .consumed })
  | .consumed => (if c.reason.unwind then some c.reason else none, c)

/-- Enters an evaluation; entering the outermost one counts as activity. -/
def enter (now : Int) (c : Cancellation) : Cancellation :=
  { c with depth := c.depth + 1, activity := if c.depth = 0 then now else c.activity }

/-- Leaves an evaluation. When none is left running, a cancellation that was met and does not
unwind is done with. -/
def exit (c : Cancellation) : Cancellation :=
  let c := { c with depth := c.depth - 1 }
  if c.depth = 0 && c.state = .consumed && !c.reason.unwind then c.clear else c

/-- Records activity. -/
def touch (now : Int) (c : Cancellation) : Cancellation := { c with activity := now }

/-- The reason of the posted cancellation. -/
def reason? (c : Cancellation) : Except Fault CancelReason :=
  if c.state = .idle then .error (.of .notPending "no cancellation pending") else .ok c.reason

def setLimits (limits : Limits) (c : Cancellation) : Except Fault Cancellation :=
  limits.checked.map fun limits => { c with limits }

def setLimit (field : Limits.Field) (v : Int) (c : Cancellation) : Except Fault Cancellation :=
  (c.limits.set? field v).map fun limits => { c with limits }

/-- How long a watchdog without a timeout waits before it looks again. -/
def idlePoll : Int := 100 * millisecond

/-- Starts a watchdog, which looks at once, and tells whether there was none before. -/
def startWatchdog (now : Int) (c : Cancellation) : Bool × Cancellation :=
  if c.watchdog.isSome then (false, c)
  else (true, { c with watchdog := some now, activity := now })

/-- Stops the watchdog and tells whether there was one. -/
def stopWatchdog (c : Cancellation) : Bool × Cancellation :=
  (c.watchdog.isSome, { c with watchdog := none })

/-- What a watchdog did when it looked. -/
inductive Look
  /-- It found nothing to do. -/
  | quiet
  /-- It posted a cancellation. -/
  | fired
  /-- It was due, but a cancellation was pending already. -/
  | refused (fault : Fault)
deriving DecidableEq

/-- The reason that a watchdog gives. -/
def watchdogMessage : Text := "eval unwound: watchdog timeout"

/-- One look of the watchdog at the instant `now`: what it did, how long until the next look, and
the controller afterwards. -/
def look (now : Int) (c : Cancellation) : Look × Int × Cancellation :=
  let timeout := c.limits.timeout
  if timeout ≤ 0 then (.quiet, idlePoll, c)
  else if c.depth = 0 then (.quiet, timeout, c.touch now)
  else if now - c.activity < timeout then (.quiet, timeout - (now - c.activity), c)
  else
    match c.cancel false true watchdogMessage with
    | .ok c => (.fired, timeout, c.touch now)
    | .error f => (.refused f, timeout, c.touch now)

/-- A look that is due at `now`, after which the watchdog is set for its next one. -/
def tick (now : Int) (c : Cancellation) : Look × Cancellation :=
  let (done, wait, c) := c.look now
  (done, { c with watchdog := some (now + wait) })

end Cancellation

end InterpTree
