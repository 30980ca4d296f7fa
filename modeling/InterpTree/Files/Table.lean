import InterpTree.Files.Path

/-!
Files by path, with the directories that hold them.
-/

namespace InterpTree

open FilePath

/-- Files by path. A directory is an entry without content; `members` lists the names that each
directory is known to hold. -/
structure FileTable where
  entries : List (Text × Option Text) := []
  members : List (Text × Text) := []
deriving DecidableEq

namespace FileTable

def find? (path : Text) (t : FileTable) : Option (Option Text) := t.entries.lookup path

def isDirectory (path : Text) (t : FileTable) : Bool := t.find? path == some none

/-- Makes a new entry, and the directories above it where there is nothing yet. An entry below a
plain file is kept, but no directory holds it. `depth` bounds the length of the path. -/
def add : Nat → Text → Option Text → FileTable → FileTable
  | 0, _, _, t => t
  | depth + 1, path, content, t =>
    let t := { t with entries := t.entries ++ [(path, content)] }
    let base := directory path
    if lastName path == [Text.slash] || path == base then t
    else
      let register (t : FileTable) : FileTable :=
        { t with members := t.members ++ [(base, lastName path)] }
      match t.find? base with
      | none => register (add depth base none t)
      | some none => register t
      | some (some _) => t

/-- Gives an existing entry another content. -/
def put (path : Text) (content : Option Text) (t : FileTable) : FileTable :=
  { t with entries := t.entries.map fun e => if e.1 == path then (path, content) else e }

/-- Whether a directory is known to hold something. -/
def hasMembers (path : Text) (t : FileTable) : Bool := t.members.any fun m => m.1 == path

/-- Removes an entry. -/
def erase (path : Text) (t : FileTable) : FileTable where
  entries := t.entries.filter fun e => e.1 != path
  members := t.members.filter fun m => !(m.1 == directory path && m.2 == lastName path)

/-- Writes a file, new or not. -/
def write (path content : Text) (t : FileTable) : FileTable :=
  match t.find? path with
  | none => t.add (path.length + 1) path (some content)
  | some _ => t.put path (some content)

end FileTable

end InterpTree
