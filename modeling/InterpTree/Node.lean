import InterpTree.Trust
import InterpTree.Policy
import InterpTree.Frames
import InterpTree.Variables
import InterpTree.Cancellation
import InterpTree.Schedule
import InterpTree.Service

/-!
Interpreters. Each is a node of a tree, named by a number; links to children are numbers too, so a
node holds no other node.
-/

namespace InterpTree

/-- The number of a node. Zero is never assigned. -/
abbrev NodeId := Nat

/-- A child link. A shared link leads to a node whose parent is another one. -/
structure Link where
  name : Text
  target : NodeId
  shared : Bool := false
deriving DecidableEq

/-- Where a shared link to a node is installed. -/
structure LinkRef where
  holder : NodeId
  name : Text
deriving DecidableEq

/-- What happens when the value of an object is disposed of. -/
inductive Disposal
  /-- The value knows nothing of disposal. -/
  | ignored
  /-- The value is closed. -/
  | closes
  /-- The value is closed, which fails. -/
  | fails
deriving DecidableEq

/-- A value of the host: which one it is, and what becomes of it when it is disposed of. -/
structure HostValue where
  number : Nat
  disposal : Disposal
deriving DecidableEq

/-- A value of the host under a name. The same object may be registered in several nodes, and the same
value as several objects. -/
structure Object where
  name : Text
  token : Nat
  value : HostValue
  noDispose : Bool := false
  shared : Bool := false
deriving DecidableEq

/-- The background error handler that every node starts with. -/
def defaultBackgroundError : Text := "bgerror"

/-- An interpreter. -/
structure Node where
  id : NodeId
  name : Text
  /-- The node it was created under; zero for the root. -/
  parent : NodeId
  /-- The absolute path, by way of the node `home`. -/
  path : Text
  home : NodeId
  /-- The path at creation, which log records show. -/
  birthPath : Text
  /-- Part of the tree. -/
  attached : Bool := false
  dead : Bool := false
  released : Bool := false
  /-- Its context has ended. -/
  ended : Bool := false
  /-- Handed over to the host. -/
  shared : Bool := false
  sharedLinks : List LinkRef := []
  trust : Trust
  /-- Children, in the order of linking. The one list is both the map from names to children and the
  order of the names, which are always written together. -/
  links : List Link := []
  commands : CommandTable := []
  /-- Aliases, in the order of definition. -/
  aliases : List Alias := []
  policies : List Policy := []
  policySeq : Nat := 0
  /-- Objects by name, each as its token. -/
  objects : List (Text × Nat) := []
  backgroundError : List Text := [defaultBackgroundError]
  /-- Counts definitions of commands and aliases. -/
  seq : Nat := 0
  cancel : Cancellation
  queue : Schedule
  frames : CallStack := {}
  vars : Variables := {}
  /-- The dedicated worker, once started. -/
  worker : Option (Worker ServiceJob) := none
  /-- A worker that outlives the release of its node, until its running item is done. -/
  retiring : Option (Worker ServiceJob) := none
  /-- An item of the worker is being run right now. -/
  busy : Bool := false
  /-- How many times the worker has yet to tidy up, if it was overtaken in the middle of an item. -/
  unfinished : Option Nat := none
deriving DecidableEq

namespace Node

def isRoot (n : Node) : Bool := n.parent = 0

/-- Part of the tree and not about to leave it. -/
def isLive (n : Node) : Bool := n.attached && !n.dead

/-- The child link of a name. -/
def link? (n : Node) (name : Text) : Option Link := n.links.find? fun l => l.name == name

/-- The node with one more child link. -/
def addLink (l : Link) (n : Node) : Node := { n with links := n.links ++ [l] }

/-- The node without one child link, if it leads to `target`. -/
def unlink (name : Text) (target : NodeId) (n : Node) : Node :=
  { n with links := n.links.filter fun l => !(l.name == name && l.target = target) }

/-- The alias of a name. -/
def alias? (n : Node) (name : Text) : Option Alias := n.aliases.find? fun a => a.source == name

/-- The names of the registered objects, in byte order. -/
def objectNames (n : Node) : List Text := Text.sorted (n.objects.map Prod.fst)

end Node

end InterpTree
