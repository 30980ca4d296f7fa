import InterpTree.Files.Table

/-!
Files of a host. A path leads from name to name, and every name but the last has to be that of a
directory; names and paths may not be too long. What lies above the working directory cannot be
looked into: it is directories all the way up.
-/

namespace InterpTree

/-- Why a path leads nowhere, or not to what is wanted there. -/
inductive PathFault
  | missing
  | notDirectory
  | isDirectory
  | present
  | notEmpty
  | invalid
  | tooLong
  | busy
deriving DecidableEq

def PathFault.text : PathFault → Text
  | .missing => "no such file or directory"
  | .notDirectory => "not a directory"
  | .isDirectory => "is a directory"
  | .present => "file exists"
  | .notEmpty => "directory not empty"
  | .invalid => "invalid argument"
  | .tooLong => "file name too long"
  | .busy => "device or resource busy"

/-- Why something could not be done with a path. -/
def PathFault.during (verb path : Text) (f : PathFault) : Text :=
  verb ++ " " ++ path ++ ": " ++ f.text

namespace FileTable

open FilePath

/-- What every host has outside of the working directory: a place for temporary files, and a file
that is always empty. -/
def everywhere : FileTable where
  entries := [("/dev", none), ("/dev/null", some []), ("/tmp", none)]

/-- How many bytes a name may have. -/
def nameBound : Nat := 255

/-- How many bytes a path may have. -/
def pathBound : Nat := 4095

/-- Whether a clean path leads to the place where one stands, up from there, or to the root. -/
def isOutside (place : Text) : Bool :=
  place == Text.ofString "." || place == [Text.slash] ||
    (Text.splitAt Text.slash place).all fun name => name == Text.ofString ".."

/-- Whether there is a directory at a clean path. -/
def hasDirectory (place : Text) (t : FileTable) : Bool := isOutside place || t.isDirectory place

/-- Whether there is anything at a clean path. -/
def hasAnything (place : Text) (t : FileTable) : Bool :=
  isOutside place || (t.find? place).isSome

/-- Where a name leads from a directory. -/
def enter (t : FileTable) (place name : Text) : Except PathFault Text :=
  if nameBound < name.length then .error .tooLong
  else
    let next := below place name
    if t.hasAnything next then .ok next else .error .missing

/-- Where some names lead, one after the other. A path that ends in a slash has an empty name at its
end. -/
def walk (t : FileTable) : Text → List Text → Except PathFault Text
  | place, [] => .ok place
  | place, name :: names =>
    if t.hasDirectory place then do t.walk (← t.enter place name) names
    else .error .notDirectory

/-- Refuses a path that nothing can have. -/
def checkPath (path : Text) : Except PathFault Unit :=
  if path.contains 0 then .error .invalid
  else if path.isEmpty then .error .missing
  else if pathBound < path.length then .error .tooLong
  else .ok ()

/-- Where a path starts. -/
def start (path : Text) : Text := if isRooted path then [Text.slash] else "."

/-- Where a path leads. -/
def locate (t : FileTable) (path : Text) : Except PathFault Text := do
  checkPath path
  t.walk (start path) (Text.splitAt Text.slash path)

/-- Whether there is a directory where a path leads. -/
def leadsToDirectory (t : FileTable) (path : Text) : Bool :=
  match t.locate path with
  | .ok place => t.hasDirectory place
  | .error _ => false

/-- The content of the file that a path leads to, or why it cannot be read. Messages call the file
`named`. A directory can be opened, but not read. -/
def readFile (t : FileTable) (path named : Text) : Except Text Text :=
  match t.locate path with
  | .error f => .error (f.during "open" named)
  | .ok place =>
    match t.find? place with
    | some (some content) => .ok content
    | _ => .error (PathFault.during "read" named .isDirectory)

/-- The directory that the last name of a path is to be found in, and that name. -/
def lastStep (t : FileTable) (path : Text) : Except PathFault (Text × Text) := do
  checkPath path
  let names := Text.splitAt Text.slash path
  let place ← t.walk (start path) names.dropLast
  if !t.hasDirectory place then throw .notDirectory
  return (place, names.getLast?.getD [])

/-- Makes a directory. -/
def makeDirectory (t : FileTable) (path : Text) : Except PathFault FileTable := do
  let bare := (path.reverse.dropWhile (· = Text.slash)).reverse
  let (place, name) ← t.lastStep bare
  match t.enter place name with
  | .ok _ => throw .present
  | .error .missing => return t.add 1 (below place name) none
  | .error f => throw f

/-- The part of a path before its last name, with the slash at its end. -/
def parentPart (path : Text) : Text :=
  ((path.reverse.dropWhile (· = Text.slash)).dropWhile (· ≠ Text.slash)).reverse

/-- Makes a directory and those above it where there is nothing yet, or tells why one of them cannot
be made. Those made before stay. `fuel` bounds how many there are. -/
def makeDirectories : Nat → Text → FileTable → Except Text Unit × FileTable
  | 0, _, t => (.ok (), t)
  | fuel + 1, path, t =>
    match t.locate path with
    | .ok place =>
      if t.hasDirectory place then (.ok (), t)
      else (.error (PathFault.during "mkdir" path .notDirectory), t)
    | .error _ =>
      let above := parentPart path
      let (made, t) := if above.isEmpty then (.ok (), t) else makeDirectories fuel above t
      match made with
      | .error reason => (.error reason, t)
      | .ok () =>
        match t.makeDirectory path with
        | .ok t => (.ok (), t)
        | .error f =>
          if t.leadsToDirectory path then (.ok (), t) else (.error (f.during "mkdir" path), t)

/-- Makes the directory that a file is to be in, and those above it. -/
def makeRoom (path : Text) (t : FileTable) : Except Text Unit × FileTable :=
  let room := clean (path.reverse.dropWhile (· ≠ Text.slash)).reverse
  if room == Text.ofString "." then (.ok (), t) else t.makeDirectories (room.length + 1) room

/-- Writes the file at a clean path whose directory is there, or tells why it cannot be written. -/
def placeFile (t : FileTable) (path content : Text) : Except PathFault FileTable := do
  let (place, name) ← t.lastStep path
  match t.enter place name with
  | .ok here =>
    if t.hasDirectory here then throw .isDirectory else return t.put here (some content)
  | .error .missing => return t.add 1 (below place name) (some content)
  | .error f => throw f

/-- Writes the file at a clean path, and makes the directories above it. -/
def writeFile (path content : Text) (t : FileTable) : Except Text Unit × FileTable :=
  match t.makeRoom path with
  | (.error reason, t) => (.error reason, t)
  | (.ok (), t) =>
    match t.placeFile path content with
    | .ok t => (.ok (), t)
    | .error f => (.error (f.during "open" path), t)

/-- Makes an empty file, unless there is something already or it cannot be made. -/
def ensureFile (path : Text) (t : FileTable) : FileTable :=
  if (t.locate path).toBool then t else (t.writeFile (clean path) []).2

/-- Whether a directory has nothing in it. -/
def isEmptyDirectory (place : Text) (t : FileTable) : Bool :=
  !isOutside place && t.entries.all fun e => e.1 == place || directory e.1 != place

/-- Removes the file or the empty directory at a clean path. The place where one stands is no name
in a directory, and what is above it is not empty. -/
def discard (t : FileTable) (path : Text) : Except PathFault FileTable := do
  let (place, name) ← t.lastStep path
  if path == [Text.slash] then throw .busy
  if name == Text.ofString "." then throw .invalid
  let here ← t.enter place name
  if t.hasDirectory here && !t.isEmptyDirectory here then throw .notEmpty
  return t.erase here

/-- Removes the file or the empty directory at a clean path; removing what is not there is no
error. -/
def removeFile (path : Text) (t : FileTable) : Except Text FileTable :=
  match t.discard path with
  | .ok t => .ok t
  | .error .missing => .ok t
  | .error f => .error (f.during "remove" path)

end FileTable

end InterpTree
