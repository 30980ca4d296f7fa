import InterpTree.Engine.Guards
import InterpTree.Proofs.Ends

/-!
Evaluations by a path, in two parts: first the policies of the node at the path are asked, then the
script is evaluated there, unless they refuse.
-/

namespace InterpTree

namespace Engine

/-- Asks the policies of a node that guard an operation. -/
def vet (e : Engine) (context : Option Context) (case : PolicyCase) (guards : Policy → Bool) :
    Act (Option Fault) := do
  let policies ← Act.ofNode case.target fun n => n.policies.filter guards
  e.askPolicies context case policies

/-- What becomes of an evaluation in another node once its policies have been asked. -/
def evaluateVetted (e : Engine) (context : Option Context) (caller target : NodeId)
    (path script : Text) : Option Fault → Act Completion
  | some f => return .fail f
  | none => do
    let result ← inFrame target "eval" FrameFlags.evaluate (e.evaluate context target script)
    if result.isError && target ≠ caller then
      return result.annotate ("(in interp eval " ++ Text.quoted path ++ ")")
    else return result

variable {w : World} {caller target : NodeId} {path : Text}

theorem evaluateIn_eq_vetted (e : Engine) (context : Option Context) (script : Text)
    (resolved : w.resolve? caller path = some target) :
    e.evaluateIn context caller path script w =
      ((if target = caller then pure none
        else e.vet context { caller, target, name := "eval", script } Policy.guardsEvaluation) >>=
          e.evaluateVetted context caller target path script) w := by
  unfold evaluateIn
  rw [Act.bind_of_ok (Act.get_apply w), resolved]
  dsimp only
  split
  · rfl
  · exact congrFun (bind_assoc ..).symm w

theorem evaluateIn_of_unresolved (e : Engine) (context : Option Context) (script : Text)
    (stuck : w.resolve? caller path = none) :
    e.evaluateIn context caller path script w = .ok (.fail (.noInterpreter path)) w := by
  unfold evaluateIn
  rw [Act.bind_of_ok (Act.get_apply w), stuck]
  rfl

end Engine

end InterpTree
