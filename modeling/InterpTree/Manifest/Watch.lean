import InterpTree.Manifest.Apply

/-!
Watching a manifest. When the file is written it is loaded again and offered to whoever watches it;
the manifest changes only if the new one can be loaded and is accepted.
-/

namespace InterpTree

/-- What came of loading a manifest again. -/
structure Reload where
  /-- The record that is logged. -/
  message : Text
  fault : Option Fault := none
  /-- The previous and the new manifest, if there was a new one to be accepted. -/
  offered : Option (Manifest × Manifest) := none

namespace Manifest

/-- Offers what was loaded in place of the manifest `current`, and gives the manifest that counts
from now on. -/
def reload (current : Manifest) (loaded : Except Fault Manifest)
    (accept : Manifest → Manifest → Attempt Unit) : Act (Reload × Manifest) := do
  let failed : Text := "failed to reload manifest"
  match loaded with
  | .error f => return ({ message := failed, fault := some f }, current)
  | .ok updated =>
    let offered := some (current, updated)
    match ← (accept current updated).run with
    | .ok () => return ({ message := "manifest reloaded", offered }, updated)
    | .error f =>
      let fault := some (Fault.noted "manifest change callback failed" f)
      return ({ message := failed, fault, offered }, current)

end Manifest

end InterpTree
