import InterpTree.Text.Duration
import InterpTree.Yaml.Datum

/-!
YAML documents, as manifests and configuration files use them: mappings, lists and scalars, and
nodes that repeat another one. What a scalar stands for depends on its form, on its tag and on what
its reader wants.
-/

namespace InterpTree

/-- A node of a document. -/
inductive Yaml
  /-- A scalar as it is written, and what it stands for. Its tag may want something that it cannot
  stand for. -/
  | scalar (written : Text) (datum : Option Yaml.Datum)
  | list (items : List Yaml)
  | map (entries : List (Yaml × Yaml))
  /-- The node that has a name, once more; `size` counts the nodes it is made of. -/
  | again (name : Text) (size : Nat) (node : Yaml)

namespace Yaml

/-- A text. -/
def ofText (t : Text) : Yaml := .scalar t (some (.text t))

/-- A scalar as it stands without quotes. -/
def ofPlain (t : Text) : Yaml := .scalar t (some (.ofPlain t))

/-- The node itself, however often it is repeated. -/
def target : Yaml → Yaml
  | .again _ _ y => y.target
  | y => y

/-- What a scalar stands for. The key of a merge is a text anywhere else. -/
def datum? (y : Yaml) : Option Datum :=
  match y.target with
  | .scalar _ (some .merge) => some (.text Datum.mergeWord)
  | .scalar _ d => d
  | _ => none

/-- Whether a node is a scalar that stands for nothing. -/
def isNull (y : Yaml) : Bool := y.datum? = some .null

/-! ### How much repetition there is -/

mutual

/-- How many nodes there are with all repetitions. -/
def size : Yaml → Nat
  | .scalar _ _ => 1
  | .list items => 1 + sizeOfItems items
  | .map entries => 1 + sizeOfEntries entries
  | .again _ size _ => 1 + size

def sizeOfItems : List Yaml → Nat
  | [] => 0
  | y :: ys => y.size + sizeOfItems ys

def sizeOfEntries : List (Yaml × Yaml) → Nat
  | [] => 0
  | (key, value) :: entries => key.size + value.size + sizeOfEntries entries

end

/-- How many nodes were met, and how many of these inside repetitions. -/
structure Tally where
  nodes : Nat := 0
  repeated : Nat := 0
deriving DecidableEq

namespace Tally

/-- Whether too many of the nodes are repetitions: more than 99 in a hundred of up to 400000 nodes,
fewer of more nodes, and more than 10 in a hundred of 4000000 nodes. -/
def isExcessive (t : Tally) : Bool :=
  let low := 400000
  let range := 3600000
  let allowed :=
    if t.nodes ≤ low then 99 * range
    else if low + range ≤ t.nodes then 10 * range
    else 99 * range - 89 * (t.nodes - low)
  100 < t.repeated && 1000 < t.nodes && t.nodes * allowed < t.repeated * (100 * range)

end Tally

mutual

/-- Counts the nodes of a tree, unless too many of them are repetitions. -/
def tally? (t : Tally) : Yaml → Option Tally
  | .scalar _ _ => some { t with nodes := t.nodes + 1 }
  | .list items => tallyItems? { t with nodes := t.nodes + 1 } items
  | .map entries => tallyEntries? { t with nodes := t.nodes + 1 } entries
  | .again _ size _ =>
    let t := { t with nodes := t.nodes + 1 + size, repeated := t.repeated + size }
    if t.isExcessive then none else some t

def tallyItems? (t : Tally) : List Yaml → Option Tally
  | [] => some t
  | y :: ys => do tallyItems? (← tally? t y) ys

def tallyEntries? (t : Tally) : List (Yaml × Yaml) → Option Tally
  | [] => some t
  | (key, value) :: entries => do tallyEntries? (← tally? (← tally? t key) value) entries

end

/-- Whether a document, which counts as a node itself, repeats nodes no more than it may. -/
def isModest (y : Yaml) : Bool := (tally? ⟨1, 0⟩ y).isSome

/-! ### Entries of mappings -/

/-- What tells whether two keys are the same: their kind, and the text of a scalar or the name of a
repeated node. -/
inductive KeyForm
  | scalar (t : Text)
  | list
  | map
  | again (name : Text)
deriving DecidableEq

def keyForm : Yaml → KeyForm
  | .scalar t _ => .scalar t
  | .list _ => .list
  | .map _ => .map
  | .again name _ _ => .again name

/-- The text of a key: a scalar of any kind is read as it is written. A key that stands for nothing
does not count, and `none` is a key that is no scalar. -/
def keyText? (y : Yaml) : Option (Option Text) :=
  match y.target with
  | .scalar _ none => none
  | .scalar _ (some .null) => some none
  | .scalar _ (some (.text t)) => some (some t)
  | .scalar t (some _) => some (some t)
  | _ => none

/-- Whether nothing comes twice in a list. -/
def areDistinct {α : Type} [DecidableEq α] : List α → Bool
  | [] => true
  | a :: as => !as.contains a && areDistinct as

def isMerge : Yaml → Bool
  | .scalar _ (some .merge) => true
  | _ => false

/-- The entries with their keys as texts, those of merges apart. -/
def plainEntries? : List (Yaml × Yaml) → Option (List (Text × Yaml))
  | [] => some []
  | (key, value) :: rest =>
    if key.isMerge then plainEntries? rest
    else do
      let rest ← plainEntries? rest
      match ← keyText? key with
      | none => return rest
      | some t => return (t, value) :: rest

/-- The mappings that a merge takes in: one, or a list of them. -/
def mergedMaps? (y : Yaml) : Option (List (List (Yaml × Yaml))) :=
  let map? (y : Yaml) : Option (List (Yaml × Yaml)) :=
    match y.target with
    | .map entries => some entries
    | _ => none
  match y with
  | .list items => items.mapM map?
  | y => (map? y).map fun entries => [entries]

/-- The entries of `maps` after those with the keys `seen`: for each key the first one counts, and
what a mapping says itself comes before what it takes in. `fuel` bounds how deep merges go. -/
def mergeEntries? : Nat → List Text → List (List (Yaml × Yaml)) → Option (List (Text × Yaml))
  | 0, _, _ => none
  | _ + 1, _, [] => some []
  | fuel + 1, seen, entries :: maps => do
    if !areDistinct (entries.map fun e => e.1.keyForm) then none
    let own := (← plainEntries? entries).filter fun e => !seen.contains e.1
    let seen := own.map Prod.fst ++ seen
    let merged ←
      match entries.find? fun e => e.1.isMerge with
      | none => some []
      | some (_, y) => (mergedMaps? y).bind (mergeEntries? fuel seen)
    let more ← mergeEntries? fuel (merged.map Prod.fst ++ seen) maps
    return own ++ merged ++ more

/-- The entries of a mapping by the texts of their keys, with those that it takes in. A mapping with
two values for one key has none. -/
def entries? (y : Yaml) : Option (List (Text × Yaml)) :=
  match y.target with
  | .map entries => mergeEntries? (y.size + 1) [] [entries]
  | _ => none

mutual

/-- Whether everything in a document stands for something. -/
def isDecodable : Yaml → Bool
  | .scalar _ d => d.isSome
  | .list items => itemsDecodable items
  | .map entries => (entries? (.map entries)).isSome && entriesDecodable entries
  | .again _ _ _ => true

def itemsDecodable : List Yaml → Bool
  | [] => true
  | y :: ys => y.isDecodable && itemsDecodable ys

def entriesDecodable : List (Yaml × Yaml) → Bool
  | [] => true
  | (key, value) :: entries => key.isDecodable && value.isDecodable && entriesDecodable entries

end

/-! ### Reading values of a wanted kind

A result of `none` is a value of another kind, and `some none` is a value left out. -/

/-- A text; a scalar of any kind is read as it is written. -/
def text? : Yaml → Option (Option Text) := keyText?

/-- The words that only count as a truth where one is wanted. -/
def looseBool? (s : Text) : Option Bool :=
  if [("y" : Text), "Y", "yes", "Yes", "YES", "on", "On", "ON"].contains s then some true
  else if [("n" : Text), "N", "no", "No", "NO", "off", "Off", "OFF"].contains s then some false
  else none

def bool? (y : Yaml) : Option (Option Bool) := do
  match ← y.datum? with
  | .null => return none
  | .bool b => return some b
  | .text t => return some (← looseBool? t)
  | _ => none

/-- An integer of 64 bits; a fraction is cut off. -/
def int? (y : Yaml) : Option (Option Int) := do
  match ← y.datum? with
  | .null => return none
  | .int i => if i ≤ maxWord then return some i else none
  | .real r => if r.isAtMost 63 then return some r.toWord else none
  | _ => none

/-- An unsigned word of 64 bits. -/
def word? (y : Yaml) : Option (Option Nat) := do
  match ← y.datum? with
  | .null => return none
  | .int i => if 0 ≤ i then return some i.toNat else none
  | .real r => if r.isAtMost 64 then return some r.toUnsigned else none
  | _ => none

/-- A span of time, which needs a unit. -/
def span? (y : Yaml) : Option (Option Int) := do
  match ← y.datum? with
  | .null => return none
  | .text t => return some (← Duration.ofText? t)
  | _ => none

/-- A list of values; those left out do not count. -/
def items? {α : Type} (read : Yaml → Option (Option α)) (y : Yaml) : Option (List α) :=
  match y.target with
  | .list items => do return (← items.mapM read).filterMap id
  | y => if y.isNull then some [] else none

/-- The entries of a mapping, whose keys have to be different and among `known`. -/
def fields? (known : List Text) (y : Yaml) : Option (Option (List (Text × Yaml))) :=
  if y.isNull then some none
  else do
    let entries ← y.entries?
    if areDistinct (entries.map Prod.fst) && entries.all fun e => known.contains e.1 then
      some (some entries)
    else none

/-- The value of a field, read as `read` says, if it is there. -/
def field? {α : Type} (entries : List (Text × Yaml)) (name : Text)
    (read : Yaml → Option (Option α)) : Option (Option α) :=
  match entries.lookup name with
  | none => some none
  | some y => read y

/-- The value of a list field. -/
def listField? {α : Type} (entries : List (Text × Yaml)) (name : Text)
    (read : Yaml → Option (Option α)) : Option (List α) :=
  match entries.lookup name with
  | none => some []
  | some y => items? read y

end Yaml

end InterpTree
