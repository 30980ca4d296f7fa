import InterpTree.Files.Host

/-!
File stores. Scripts reach files through a store: one kept in memory, or a directory of the host.
A path is taken from the root of the store and must not lead out of it.
-/

namespace InterpTree

open FilePath

/-- Where the files of a store are. -/
inductive FileRoot
  /-- In memory. -/
  | memory
  /-- Below a directory of the host. -/
  | host (directory : Text)
deriving DecidableEq

/-- A store of files. -/
structure FileStore where
  root : FileRoot := .memory
  table : FileTable := {}
deriving DecidableEq

namespace FileStore

/-- Where a path of a script leads. -/
def locate (path : Text) (s : FileStore) : Except Text Text :=
  if escapes path then .error "chroot boundary crossed"
  else
    match s.root with
    | .memory => .ok (below [Text.slash] path)
    | .host directory => .ok (below directory path)

def exists? (path : Text) (s : FileStore) : Bool :=
  match s.locate path, s.root with
  | .error _, _ => false
  | .ok place, .memory => (s.table.find? place).isSome
  | .ok place, .host _ => (s.table.locate place).toBool

/-- The content of a file, or why it cannot be read. -/
def read (path : Text) (s : FileStore) : Except Text Text := do
  let place ← s.locate path
  match s.root with
  | .memory =>
    match s.table.find? place with
    | none => .error "file does not exist"
    | some none => .error ("cannot open directory: " ++ place)
    | some (some content) => .ok content
  | .host _ => s.table.readFile place place

/-- Writes a file, or tells why it cannot be written. Directories made for it stay in any case. -/
def write (path content : Text) (s : FileStore) : Except Text Unit × FileStore :=
  match s.locate path with
  | .error reason => (.error reason, s)
  | .ok place =>
    match s.root with
    | .memory =>
      if s.table.isDirectory place then (.error ("cannot open directory: " ++ place), s)
      else (.ok (), { s with table := s.table.write place content })
    | .host _ =>
      let (written, table) := s.table.writeFile place content
      (written, { s with table })

/-- Removes a file or an empty directory; removing what is not there is no error. -/
def remove (path : Text) (s : FileStore) : Except Text Unit × FileStore :=
  match s.locate path with
  | .error reason => (.error reason, s)
  | .ok place =>
    match s.root with
    | .memory =>
      if s.table.isDirectory place && s.table.hasMembers place then
        (.error ("dir: " ++ place ++ " contains files"), s)
      else (.ok (), { s with table := s.table.erase place })
    | .host _ =>
      match s.table.removeFile place with
      | .ok table => (.ok (), { s with table })
      | .error reason => (.error reason, s)

end FileStore

end InterpTree
