import InterpTree.Text

/-!
Log records: a level, a message, and named fields with their values as texts.
-/

namespace InterpTree

/-- How much a record matters, most first. -/
inductive Level
  | panic
  | fatal
  | error
  | warning
  | info
  | debug
  | trace
deriving DecidableEq

namespace Level

def severity : Level → Nat
  | .panic => 0
  | .fatal => 1
  | .error => 2
  | .warning => 3
  | .info => 4
  | .debug => 5
  | .trace => 6

def name : Level → Text
  | .panic => "panic"
  | .fatal => "fatal"
  | .error => "error"
  | .warning => "warning"
  | .info => "info"
  | .debug => "debug"
  | .trace => "trace"

def all : List Level := [.panic, .fatal, .error, .warning, .info, .debug, .trace]

end Level

/-- A log record. -/
structure LogRecord where
  level : Level
  message : Text
  fields : List (Text × Text)
deriving DecidableEq

/-- A named field. -/
def field (name value : Text) : Text × Text := (name, value)

/-- The value of a field that is true or false. -/
def flagField (b : Bool) : Text := if b then "true" else "false"

end InterpTree
