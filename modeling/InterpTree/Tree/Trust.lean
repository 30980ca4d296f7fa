import InterpTree.Tree.Commands

/-!
Operations on the trust state of a node. Only a caller that is not safe may use them, and only on a
node that is not immutable.
-/

namespace InterpTree

namespace Fault

def alreadyMarked (flag : Text) : Fault :=
  .of .invalidArgument ("interpreter is already marked as " ++ Text.quoted flag)

def notMarked (flag : Text) : Fault :=
  .of .invalidArgument ("interpreter is not marked as " ++ Text.quoted flag)

end Fault

namespace Edit

open Op (require)

/-- Marks a node safe, which hides commands, or takes the mark back, which restores them. -/
def markSafe (on : Bool) : Edit Unit := do
  require ((← get).trust.safe != on) (if on then .alreadyMarked "safe" else .notMarked "safe")
  modify fun n => { n with trust := { n.trust with safe := on } }
  modify fun n => { n with
    commands := if on then n.commands.hideFor .safe else n.commands.restoreFor .safe }

/-- Marks a node standard, which hides commands, or takes the mark back, which restores them. -/
def markStandard (on : Bool) : Edit Unit := do
  require ((← get).trust.standard != on)
    (if on then .alreadyMarked "standard" else .notMarked "standard")
  modify fun n => { n with trust := { n.trust with standard := on } }
  modify fun n => { n with
    commands := if on then n.commands.hideFor .standard else n.commands.restoreFor .standard }

/-- Marks a node trusted. There is no way back. -/
def markTrusted : Edit Unit := do
  require (!(← get).trust.trusted) (.alreadyMarked "trusted")
  modify fun n => { n with trust := { n.trust with trusted := true } }

/-- Tells whether commands and aliases of a node may change. -/
def setReadOnly (on : Bool) : Edit Unit :=
  modify fun n => { n with trust := { n.trust with readOnly := on } }

/-- Freezes the trust state of a node. Once frozen it stays so. -/
def setImmutable (on : Bool) : Edit Unit :=
  modify fun n => { n with trust := { n.trust with immutable := on } }

end Edit

namespace Op

/-- Changes the node at a path, unless the caller is safe or the node is immutable. -/
def changeTrust (caller : NodeId) (path action : Text) (edit : Edit Unit) : Op NodeId := do
  requirePrivilege caller action
  let target ← resolve caller path
  updateNode target do
    require (!(← get).trust.immutable)
      (.of .permissionDenied
        ("permission denied: interpreter " ++ Text.quoted path ++ " is immutable"))
    edit
  return target

def makeSafe (caller : NodeId) (path : Text) (on : Bool) : Op Unit := do
  let target ← changeTrust caller path "modify safety" (Edit.markSafe on)
  change (World.logNode .info target "interpreter safety changed" [field "safe" (flagField on)])

def makeStandard (caller : NodeId) (path : Text) (on : Bool) : Op Unit := do
  let _ ← changeTrust caller path "modify standardization" (Edit.markStandard on)

def markTrusted (caller : NodeId) (path : Text) : Op Unit := do
  let target ← changeTrust caller path "mark trusted" Edit.markTrusted
  change (World.logNode .info target "interpreter marked trusted" [])

def setReadOnly (caller : NodeId) (path : Text) (on : Bool) : Op Unit := do
  let _ ← changeTrust caller path "modify read-only state" (Edit.setReadOnly on)

def setImmutable (caller : NodeId) (path : Text) (on : Bool) : Op Unit := do
  let _ ← changeTrust caller path "modify immutability" (Edit.setImmutable on)

end Op

end InterpTree
