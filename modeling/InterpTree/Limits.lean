import InterpTree.Fault
import InterpTree.Text.Decimal

/-!
The limits of an interpreter. Spans of time are in nanoseconds; zero means unlimited.
-/

namespace InterpTree

/-- A nanosecond count of one millisecond. -/
def millisecond : Int := 1000000

/-- A number of milliseconds as a span in a signed word of 64 bits. -/
def spanOfMilliseconds (ms : Int) : Int := wrap64 (ms * millisecond)

structure Limits where
  timeout : Int := 0
  finallyTimeout : Int := 0
  readyLimit : Int := 0
  recursionLimit : Int := 0
  sleepTime : Int := 0
  resultLimit : Int := 0
deriving DecidableEq

namespace Limits

/-- The limits that an interpreter starts with. -/
def standard : Limits := { recursionLimit := 1000, sleepTime := 20 * millisecond }

/-- Whether some limit is negative. -/
def anyNegative (l : Limits) : Bool :=
  l.timeout < 0 || l.finallyTimeout < 0 || l.readyLimit < 0 || l.recursionLimit < 0 ||
    l.sleepTime < 0 || l.resultLimit < 0

/-- A single limit. -/
inductive Field
  | timeout
  | finallyTimeout
  | readyLimit
  | recursionLimit
  | sleepTime
  | resultLimit
deriving DecidableEq

/-- How messages name a limit. -/
def Field.title : Field → Text
  | .timeout => "timeout"
  | .finallyTimeout => "finally timeout"
  | .readyLimit => "ready limit"
  | .recursionLimit => "recursion limit"
  | .sleepTime => "sleep time"
  | .resultLimit => "result limit"

/-- Whether a limit is a span of time. -/
def Field.isSpan : Field → Bool
  | .timeout | .finallyTimeout | .sleepTime => true
  | .readyLimit | .recursionLimit | .resultLimit => false

def get (l : Limits) : Field → Int
  | .timeout => l.timeout
  | .finallyTimeout => l.finallyTimeout
  | .readyLimit => l.readyLimit
  | .recursionLimit => l.recursionLimit
  | .sleepTime => l.sleepTime
  | .resultLimit => l.resultLimit

def set (l : Limits) (field : Field) (v : Int) : Limits :=
  match field with
  | .timeout => { l with timeout := v }
  | .finallyTimeout => { l with finallyTimeout := v }
  | .readyLimit => { l with readyLimit := v }
  | .recursionLimit => { l with recursionLimit := v }
  | .sleepTime => { l with sleepTime := v }
  | .resultLimit => { l with resultLimit := v }

/-- Sets one limit, unless the value is negative. -/
def set? (l : Limits) (field : Field) (v : Int) : Except Fault Limits :=
  if v < 0 then
    .error (.of .invalidArgument ("bad " ++ field.title ++ ": must not be negative"))
  else .ok (l.set field v)

/-- All limits at once, unless one of them is negative. -/
def checked (l : Limits) : Except Fault Limits :=
  if l.anyNegative then .error (.of .invalidArgument "limits must not be negative") else .ok l

/-- The limits that somebody mentioned. -/
structure Override where
  timeout : Option Int := none
  finallyTimeout : Option Int := none
  readyLimit : Option Int := none
  recursionLimit : Option Int := none
  sleepTime : Option Int := none
  resultLimit : Option Int := none
deriving DecidableEq

namespace Override

/-- What is said about one limit. -/
def get (o : Override) : Field → Option Int
  | .timeout => o.timeout
  | .finallyTimeout => o.finallyTimeout
  | .readyLimit => o.readyLimit
  | .recursionLimit => o.recursionLimit
  | .sleepTime => o.sleepTime
  | .resultLimit => o.resultLimit

/-- What is said about the limits, field by field. -/
def ofFields (f : Field → Option Int) : Override where
  timeout := f .timeout
  finallyTimeout := f .finallyTimeout
  readyLimit := f .readyLimit
  recursionLimit := f .recursionLimit
  sleepTime := f .sleepTime
  resultLimit := f .resultLimit

end Override

/-- Whether no limit is mentioned. -/
def Override.isEmpty (o : Override) : Bool :=
  o.timeout.isNone && o.finallyTimeout.isNone && o.readyLimit.isNone && o.recursionLimit.isNone &&
    o.sleepTime.isNone && o.resultLimit.isNone

/-- The limits `base` with every mentioned one replaced. -/
def Override.over (o : Override) (base : Limits) : Limits where
  timeout := o.timeout.getD base.timeout
  finallyTimeout := o.finallyTimeout.getD base.finallyTimeout
  readyLimit := o.readyLimit.getD base.readyLimit
  recursionLimit := o.recursionLimit.getD base.recursionLimit
  sleepTime := o.sleepTime.getD base.sleepTime
  resultLimit := o.resultLimit.getD base.resultLimit

end Limits

end InterpTree
