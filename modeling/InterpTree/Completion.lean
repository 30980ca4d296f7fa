import InterpTree.Fault
import InterpTree.Text.Quoted

/-!
Completions: what a command, an alias or an evaluation hands back. While an error travels outward,
each level it passes adds a line to its trail; the value and the fault stay what they were.
-/

namespace InterpTree

/-- How a command ended. -/
inductive Status
  | ok
  | error
  | leave
  | next
  | other (code : Int)
deriving DecidableEq

namespace Status

/-- The status with a given code. -/
def ofCode (code : Int) : Status :=
  if code = 0 then .ok
  else if code = 1 then .error
  else if code = 2 then .leave
  else if code = 3 then .next
  else .other code

def code : Status → Int
  | .ok => 0
  | .error => 1
  | .leave => 2
  | .next => 3
  | .other code => code

def name : Status → Text
  | .ok => "ok"
  | .error => "error"
  | .leave => "break"
  | .next => "continue"
  | .other code => "code(" ++ Text.ofInt code ++ ")"

end Status

/-- The result of a command or an evaluation. -/
structure Completion where
  status : Status := .ok
  value : Text := []
  fault : Option Fault := none
  trail : List Text := []
deriving DecidableEq

namespace Completion

/-- Success with a value. -/
def ok (value : Text) : Completion := { value }

/-- Failure with a fault, whose wording is the value. -/
def fail (f : Fault) : Completion := { status := .error, value := f.text, fault := some f }

/-- Failure that nobody explained. -/
def unexplained : Completion := fail (.saying "unknown error")

/-- Failure with a wording only. -/
def failWith (text : Text) : Completion := fail (.saying text)

/-- Refusal for a wrong number of arguments. -/
def wrongArgs (usage : Text) : Completion :=
  fail (.of .invalidArgument ("wrong # args: should be " ++ Text.quoted usage))

def isError (c : Completion) : Bool := c.status = .error

/-- The completion with one more line on its trail. -/
def annotate (line : Text) (c : Completion) : Completion := { c with trail := c.trail ++ [line] }

/-- The fault of a failed completion; one that carries none is its value. -/
def fault? (c : Completion) : Option Fault :=
  if c.isError then some (c.fault.getD (.saying c.value)) else none

/-- The value followed by the lines of the trail. -/
def trace (c : Completion) : Text :=
  c.value ++ c.trail.flatMap fun line => ("\n    " ++ line : Text)

/-- Success with a value, or failure with a fault. -/
def ofExcept : Except Fault Text → Completion
  | .ok value => ok value
  | .error f => fail f

end Completion

end InterpTree
