import InterpTree.Files.Host
import InterpTree.Manifest
import InterpTree.Repository

/-!
What surrounds a run of the command-line tool: a working directory with files, variables of the
environment, and repositories.
-/

namespace InterpTree

/-- Files have paths from the working directory, whose own path is `directory`. -/
structure Surroundings where
  directory : Text
  /-- The home directory. -/
  home : Text := "."
  files : FileTable := .everywhere
  environment : List (Text × Text) := []
  repositories : List (Text × Repository) := []

namespace Surroundings

/-- Writes a file. -/
def write (s : Surroundings) (path content : Text) : Surroundings :=
  { s with files := s.files.write (FilePath.clean path) content }

/-- Makes a directory, unless there is something already. -/
def makeDirectory (s : Surroundings) (path : Text) : Surroundings :=
  if (s.files.find? path).isSome then s
  else { s with files := s.files.add (path.length + 1) path none }

/-- Places a repository at a path, with the files of its last commit. -/
def place (s : Surroundings) (path : Text) (r : Repository) : Surroundings :=
  let s := s.makeDirectory (FilePath.below path ".git")
  let files := (r.commits.getLast?.map Commit.files).getD []
  let s := files.foldl (fun s f => s.write (FilePath.below path f.1) f.2) s
  { s with repositories := s.repositories ++ [(path, r)] }

/-- Whether a clean path is another one or below it. -/
def isAtOrBelow (path base : Text) : Bool :=
  path == base || (base ++ [Text.slash]).isPrefixOf path

/-- What is found at a path where a repository ought to be. -/
def checkout (s : Surroundings) (path : Text) : Checkout :=
  match s.files.locate path with
  | .error _ => .missing
  | .ok place =>
    if s.files.hasDirectory place then
      match s.repositories.find? fun entry => isAtOrBelow place entry.1 with
      | some (_, r) => .inside r
      | none => .plain
    else .missing

/-- The path of a file from the root of the host. -/
def absolute (s : Surroundings) (path : Text) : Text :=
  if FilePath.isRooted path then FilePath.clean path else FilePath.below s.directory path

/-- The content of the file that a path leads to. Refusals call it `named`. -/
def read (s : Surroundings) (path named : Text) : Except Fault Text :=
  (s.files.readFile path named).mapError .saying

/-- Where the scripts of the interactive loop are remembered. -/
def historyPath (s : Surroundings) : Text := FilePath.below s.home ".hive_history"

/-- What is remembered of the scripts of the interactive loop. -/
def history (s : Surroundings) : Text :=
  match s.files.readFile s.historyPath s.historyPath with
  | .ok saved => saved
  | .error _ => []

/-- Loads a manifest. Two dots in its path take a name away whether or not it is that of a
directory. -/
def manifest (s : Surroundings) (path : Text) : Except Fault Manifest := do
  let named := s.absolute path
  let content ← s.read (FilePath.clean path) named
  match Manifest.ofText content with
  | .ok m => return m
  | .error f => throw (.noted ("manifest: parse " ++ named) f)

end Surroundings

end InterpTree
