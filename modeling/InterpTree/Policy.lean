import InterpTree.Command
import InterpTree.Text.Rune

/-!
Policies guard the hidden commands of an interpreter, and the evaluation of scripts in it from
outside.
-/

namespace InterpTree

/-- What a guard decides. Only a denial stops an operation. -/
inductive Decision
  | undecided
  | denied
  | approved
deriving DecidableEq

namespace Decision

def name : Decision → Text
  | .undecided => "undecided"
  | .denied => "denied"
  | .approved => "approved"

/-- The decision with a code. -/
def ofCode (code : Int) : Decision :=
  if code = 1 then .denied else if code = 2 then .approved else .undecided

/-- The decision that the result of a guard script stands for. -/
def ofText (value : Text) : Decision :=
  let word := (Text.trim value).lower
  if [("1" : Text), "true", "yes", "on", "approved", "allow"].contains word then .approved
  else if [("0" : Text), "false", "no", "off", "denied", "deny"].contains word then .denied
  else .undecided

end Decision

/-- A guard of the host: it decides, or fails. -/
inductive Guard
  | decide (decision : Decision)
  | fail (message : Text)
deriving DecidableEq

/-- An installed policy. Its script runs with the authority of the node `owner`. -/
structure Policy where
  name : Text
  onInvoke : Bool
  onEvaluate : Bool
  type : Text
  token : Nat
  script : Text
  guard : Option Guard
  plugin : Text
  owner : Nat
deriving DecidableEq

namespace Policy

/-- Whether the policy guards a hidden command. -/
def guardsCommand (p : Policy) (c : Command) : Bool :=
  p.onInvoke &&
    ((!p.type.isEmpty && (p.type == Text.ofString "*" || p.type == c.type)) ||
      (p.token != 0 && p.token == c.token))

/-- Whether the policy guards evaluation. -/
def guardsEvaluation (p : Policy) : Bool :=
  p.onEvaluate && (p.type == Text.ofString "*" || p.type == Text.ofString "eval")

end Policy

/-- The operation that a guard decides on: node `caller` runs a command, or a script if `script` is
not empty, in node `target`. -/
structure PolicyCase where
  caller : Nat
  target : Nat
  name : Text
  args : List Text := []
  script : Text := []
deriving DecidableEq

end InterpTree
