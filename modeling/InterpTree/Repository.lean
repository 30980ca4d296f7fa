import InterpTree.Fault
import InterpTree.Files.Path
import InterpTree.Revision
import InterpTree.Text.Duration
import InterpTree.Text.Quoted

/-!
Scripts kept in repositories. A repository is a line of commits, each a snapshot of all files, and
references to some of them; a revision leads to one of the commits.
-/

namespace InterpTree

/-- A snapshot. `short` is how messages name the commit. -/
structure Commit where
  hash : Text
  short : Text
  message : Text
  files : List (Text × Text)
deriving DecidableEq

/-- A line of commits, the oldest first, and names of places on it. -/
structure Repository where
  commits : List Commit := []
  references : List (Text × Nat) := []
deriving DecidableEq

/-- What one commit adds to the line: the files that it writes, and the names that it is given. -/
structure Change where
  hash : Text
  short : Text
  message : Text := []
  files : List (Text × Text) := []
  tag : Text := []
  branch : Text := []
deriving DecidableEq

namespace Repository

/-- The files `before` with some of them written anew. -/
def overwrite (before files : List (Text × Text)) : List (Text × Text) :=
  before.filter (fun f => (files.lookup f.1).isNone) ++ files

/-- The repository with one more commit. -/
def commit (r : Repository) (c : Change) : Repository :=
  let before := (r.commits.getLast?.map Commit.files).getD []
  let position := r.commits.length
  let named (kind name : Text) : List (Text × Nat) :=
    if name.isEmpty then [] else [("refs/" ++ kind ++ "/" ++ name, position)]
  { commits := r.commits ++ [⟨c.hash, c.short, c.message, overwrite before c.files⟩]
    references := named "tags" c.tag ++ named "heads" c.branch ++ r.references }

/-- The repository that some changes make, one after the other. The branch `master` ends at the last
of them, and so does the head. -/
def ofChanges (changes : List Change) : Repository :=
  let r := changes.foldl commit {}
  match r.commits.length with
  | 0 => r
  | n + 1 =>
    { r with references := ("HEAD", n) :: ("refs/heads/master", n) :: r.references }

/-- The place that a reference names, which may be written without what all names start with. -/
def reference? (r : Repository) (name : Text) : Option Nat :=
  [("" : Text), "refs/", "refs/tags/", "refs/heads/"].findSome? fun start =>
    r.references.lookup (start ++ name)

end Repository

/-! ### Resolving revisions -/

namespace Repository

def unknownReference : Text := "reference not found"

/-- The last place up to `i` whose commit has a message that a pattern occurs in, or does not if it
is `negated`. -/
def lastSaying? (r : Repository) (i : Nat) (pattern : Pattern) (negated : Bool) : Option Nat :=
  (List.range (i + 1)).reverse.find? fun j =>
    r.commits[j]?.any fun c => pattern.occursIn (Text.characters c.message) != negated

/-- The place that parts of a revision lead to. Before the first reference there is none. -/
def follow (r : Repository) (place : Option Nat) : List Revision.Part → Except Text Nat
  | [] =>
    match place with
    | some i => .ok i
    | none => .error unknownReference
  | .reference name :: rest =>
    match r.reference? name with
    | some i => r.follow (some i) rest
    | none => .error unknownReference
  | .ancestor depth :: rest =>
    match place with
    | none => .error unknownReference
    | some i => if depth ≤ i then r.follow (some (i - depth)) rest else .error "EOF"
  | .parent number :: rest =>
    match place with
    | none => .error unknownReference
    | some i =>
      if number = 0 then r.follow (some i) rest
      else if number = 1 && 1 ≤ i then r.follow (some (i - 1)) rest
      else .error "EOF"
  | .saying text pattern negated :: rest =>
    match place with
    | none => .error unknownReference
    | some i =>
      match r.lastSaying? i pattern negated with
      | some j => r.follow (some j) rest
      | none => .error ("no commit message match regexp: " ++ Text.quoted text)
  | _ :: rest => r.follow place rest

/-- The commit that a revision names. -/
def resolve (r : Repository) (revision : Text) : Except Text Commit :=
  match r.commits.find? fun c => c.hash == revision with
  | some c => .ok c
  | none => do
    let i ← r.follow none (← Revision.ofText revision)
    match r.commits[i]? with
    | some c => return c
    | none => throw unknownReference

/-- The text of a script in the commit that a revision names. -/
def readScript (r : Repository) (revision path : Text) : Except Fault Text := do
  match r.resolve revision with
  | .error reason =>
    throw (.noted "git source" (.noted ("resolve " ++ revision) (.saying reason)))
  | .ok commit =>
    let inner := if path.head? = some Text.slash then path.drop 1 else path
    match commit.files.lookup inner with
    | some content => return content
    | none =>
      throw (.noted "git source"
        (.noted (path ++ " at " ++ commit.short) (.saying "file not found")))

end Repository

/-! ### Sources of scripts -/

/-- A script in a repository. At most one of revision, tag and branch counts, in this order; without
any of them the head does. -/
structure GitSource where
  url : Text := []
  revision : Text := []
  tag : Text := []
  branch : Text := []
  path : Text := []
deriving DecidableEq

/-- What is found where a source says that its repository is. -/
inductive Checkout
  | missing
  /-- A directory that belongs to no repository. -/
  | plain
  | inside (r : Repository)

namespace GitSource

/-- The revision that counts. -/
def effective (s : GitSource) : Text :=
  let revision := Text.trim s.revision
  let tag := Text.trim s.tag
  let branch := Text.trim s.branch
  if !revision.isEmpty then revision
  else if !tag.isEmpty then "refs/tags/" ++ tag
  else if !branch.isEmpty then "refs/heads/" ++ branch
  else "HEAD"

/-- How the source appears in error trails. -/
def name (s : GitSource) : Text := s.url ++ "@" ++ s.effective ++ ":" ++ s.path

/-- What the source leaves out, if it leaves out something that it needs. -/
def defect? (s : GitSource) : Option Fault :=
  if (Text.trim s.url).isEmpty then some (.saying "git source: url is required")
  else if (Text.trim s.path).isEmpty then some (.saying "git source: path is required")
  else none

/-- The text of the script, given what is found at the address of the repository. -/
def fetch (s : GitSource) (found : Checkout) : Except Fault Text :=
  match s.defect? with
  | some f => .error f
  | none =>
    match found with
    | .inside r => r.readScript s.effective s.path
    | .plain =>
      .error (.noted "git source"
        (.noted ("open " ++ s.url) (.saying "repository does not exist")))
    | .missing =>
      .error (.noted "git source" (.noted ("clone " ++ s.url) (.saying "repository not found")))

end GitSource

end InterpTree
