import InterpTree.Text

/-!
The variables of an interpreter.
-/

namespace InterpTree

/-- Variables with their values; no name occurs twice. -/
structure Variables where
  entries : List (Text × Text) := []
deriving DecidableEq, Inhabited

namespace Variables

def get? (name : Text) (vars : Variables) : Option Text := vars.entries.lookup name

/-- Gives a variable a value, whether or not it had one. -/
def set (name value : Text) (vars : Variables) : Variables :=
  if (vars.get? name).isSome then
    ⟨vars.entries.map fun entry => if entry.1 == name then (name, value) else entry⟩
  else ⟨vars.entries ++ [(name, value)]⟩

/-- Removes a variable, and tells whether there was one. -/
def unset (name : Text) (vars : Variables) : Bool × Variables :=
  ((vars.get? name).isSome, ⟨vars.entries.filter fun entry => entry.1 != name⟩)

/-- The names, in byte order. -/
def names (vars : Variables) : List Text := Text.sorted (vars.entries.map Prod.fst)

/-- The variables with their values, in byte order of the names. -/
def toList (vars : Variables) : List (Text × Text) :=
  vars.entries.mergeSort fun a b => Text.le a.1 b.1

end Variables

end InterpTree
