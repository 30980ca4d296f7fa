import InterpTree.Text

/-!
Paths of files: names between slashes. A path that starts with a slash is taken from the root, any
other from the place where one stands.
-/

namespace InterpTree

namespace FilePath

open Text

/-- The names on a path that count, in reverse: empty names and single dots are left out, and two
dots take the name before them away. At the root, or where nothing is left to take away, they stand
only if the path is relative. -/
def simplify (rooted : Bool) : List Text → List Text → List Text
  | seen, [] => seen
  | seen, name :: names =>
    if name.isEmpty || name == ofString "." then simplify rooted seen names
    else if name == ofString ".." then
      match seen with
      | [] => simplify rooted (if rooted then [] else [name]) names
      | last :: before =>
        if last == name then simplify rooted (name :: seen) names
        else simplify rooted before names
    else simplify rooted (name :: seen) names

def isRooted (path : Text) : Bool := path.head? == some slash

/-- The shortest path that leads to the same place. -/
def clean (path : Text) : Text :=
  let names := (simplify (isRooted path) [] (splitAt slash path)).reverse
  if isRooted path then slash :: join [slash] names
  else if names.isEmpty then "."
  else join [slash] names

/-- One path below another. -/
def below (base path : Text) : Text :=
  if base.isEmpty then (if path.isEmpty then [] else clean path)
  else clean (base ++ [slash] ++ path)

/-- The directory that a clean path is in. -/
def directory (path : Text) : Text :=
  match cutLast slash path with
  | none => "."
  | some ([], _) => [slash]
  | some (before, _) => before

/-- The last name on a clean path. -/
def lastName (path : Text) : Text :=
  match cutLast slash path with
  | none => path
  | some (_, []) => [slash]
  | some (_, after) => after

/-- Whether a path leads out of the store it starts in. -/
def escapes (path : Text) : Bool := (ofString "../").isPrefixOf (clean path)

end FilePath

end InterpTree
