import InterpTree.Text

/-!
Scheduled scripts. An interpreter has a schedule of scripts to run at given instants; they are
served by instant, and in the order of scheduling where instants agree. The events of a schedule are
kept as a bag; the order is that of `Event.before` alone.
-/

namespace InterpTree

/-- The identifier of an event: a number of 128 bits, written in five groups of digits. -/
structure EventId where
  value : Nat
deriving DecidableEq

namespace EventId

/-- The identifier that nobody has. -/
def none : EventId := ⟨0⟩

/-- The `n`-th identifier drawn: random, variant one, from a source that counts. -/
def drawn (n : Nat) : EventId := ⟨0x00000000000040008000000000000000 + n % 0x1000000000000⟩

def text (id : EventId) : Text :=
  let digits := Text.hex 32 id.value
  Text.join "-" [digits.take 8, (digits.drop 8).take 4, (digits.drop 12).take 4,
    (digits.drop 16).take 4, digits.drop 20]

/-- Reads an identifier back. -/
def ofText? (s : Text) : Option EventId :=
  let digits := s.filter (· != Text.dash)
  if digits.length = 32 then (Text.ofHex? digits).map EventId.mk else Option.none

end EventId

/-- A script to run at the instant `due`. `given` tells whether the instant was given outright,
rather than read off the clock. -/
structure Event where
  id : EventId
  due : Int
  given : Bool := false
  script : Text
  owner : Nat
  priority : Int := 0
  seq : Nat
deriving DecidableEq

namespace Event

/-- The order of service: by instant, then by scheduling. -/
def before (a b : Event) : Bool := a.due < b.due || (a.due = b.due && a.seq < b.seq)

/-- How a priority is shown. -/
def priorityName (priority : Int) : Text :=
  if priority < 0 then "low" else if priority > 0 then "high" else "normal"

end Event

/-- What happens to an event: it is put on a schedule, and taken off it to be served or for good. -/
inductive Fate
  | scheduled
  | served
  | withdrawn
deriving DecidableEq

/-- The schedule of the interpreter `owner`. `notified` is a pending notice that something was
scheduled; `seq` counts the events ever scheduled. `history` tells what happened to events, the
latest first; nothing reads it. -/
structure Schedule where
  owner : Nat := 0
  events : List Event := []
  seq : Nat := 0
  notified : Bool := false
  history : List (Fate × Event) := []
deriving DecidableEq

namespace Schedule

/-- Schedules a script. -/
def enqueue (id : EventId) (due : Int) (given : Bool) (script : Text) (priority : Int)
    (q : Schedule) : Schedule :=
  let event : Event := ⟨id, due, given, script, q.owner, priority, q.seq + 1⟩
  { q with
    events := q.events ++ [event]
    seq := q.seq + 1
    notified := true
    history := (.scheduled, event) :: q.history }

def size (q : Schedule) : Nat := q.events.length

/-- The events in the order of service. -/
def toList (q : Schedule) : List Event := q.events.mergeSort fun a b => !b.before a

/-- The schedule without the events that are `unwanted`. -/
def withdraw (unwanted : Event → Bool) (q : Schedule) : Schedule :=
  { q with
    events := q.events.filter fun e => !unwanted e
    history := (q.events.filter unwanted).map (Fate.withdrawn, ·) ++ q.history }

/-- Removes the events with an identifier, and tells whether there were any. -/
def remove (id : EventId) (q : Schedule) : Bool × Schedule :=
  (q.events.any fun e => e.id = id, q.withdraw fun e => e.id = id)

def clear (q : Schedule) : Schedule := q.withdraw fun _ => true

/-- The event that is served first. -/
def least? : List Event → Option Event
  | [] => none
  | e :: es =>
    match least? es with
    | none => some e
    | some m => if m.before e then some m else some e

/-- The bag without its first event by `seq`. -/
def without (e : Event) (es : List Event) : List Event := es.filter fun x => x.seq ≠ e.seq

/-- The schedule without an event that is going to be served. -/
def served (e : Event) (q : Schedule) : Schedule :=
  { q with events := without e q.events, history := (.served, e) :: q.history }

/-- Takes events off the bag in the order of service until one has a priority of at least `floor`,
all of them due at `now`; `fuel` bounds how many are looked at. -/
def takeDue (now : Int) (floor : Int) : Nat → List Event → Option Event
  | 0, _ => none
  | fuel + 1, es =>
    match least? es with
    | none => none
    | some e =>
      if now < e.due then none
      else if e.priority < floor then takeDue now floor fuel (without e es)
      else some e

/-- Removes the first event due at `now` whose priority is at least `floor`. Due events of lower
priority stay. -/
def popDue (now : Int) (floor : Int) (q : Schedule) : Option (Event × Schedule) :=
  (takeDue now floor q.events.length q.events).map fun e => (e, q.served e)

/-- The earliest instant among the events whose priority is at least `floor`. -/
def nextDue (floor : Int) (q : Schedule) : Option Int :=
  q.events.foldl
    (fun earliest e =>
      if e.priority < floor then earliest
      else
        match earliest with
        | none => some e.due
        | some t => if e.due < t then some e.due else some t)
    none

end Schedule

end InterpTree
