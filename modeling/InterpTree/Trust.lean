import InterpTree.Text

/-!
How far an interpreter is trusted.
-/

namespace InterpTree

/-- How the commands of a new interpreter are set up. -/
inductive Profile
  | full
  | safe
  | none
deriving DecidableEq

def Profile.name : Profile → Text
  | .full => "full"
  | .safe => "safe"
  | .none => "none"

/-- The profile with a code. -/
def Profile.ofCode (code : Int) : Profile :=
  if code = 0 then .full else if code = 1 then .safe else .none

/-- The trust state of an interpreter. Namespaces and profile are fixed at creation. -/
structure Trust where
  safe : Bool := false
  standard : Bool := false
  trusted : Bool := false
  readOnly : Bool := false
  immutable : Bool := false
  namespaces : Bool := true
  profile : Profile := .full
deriving DecidableEq

end InterpTree
