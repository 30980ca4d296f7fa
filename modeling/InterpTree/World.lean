import InterpTree.Node
import InterpTree.Files
import InterpTree.Log

/-!
The world of an interpreter tree: all nodes ever made, the objects registered in them, and what the
host offers and has seen. Operations that may be refused are written as `Op`: a refusal is a fault,
and the world afterwards is part of the result in any case.
-/

namespace InterpTree

/-- Which commands new interpreters get. -/
inductive Population
  | nothing
  /-- The commands of the script language. -/
  | script
  /-- These and the command that controls the tree. -/
  | full
  /-- The commands of the script language, and a refusal for every node but the root. -/
  | refusing
deriving DecidableEq

/-- How a tree is set up. -/
structure Settings where
  hasEvaluator : Bool := true
  population : Population := .full
  /-- From which population on, counted from one, populating fails; zero for never. -/
  failFrom : Nat := 0
  limits : Limits := Limits.standard
deriving DecidableEq

/-- What the host offers to scripts, and what it has seen of them. `closed` lists the objects through
which values were closed, as tokens and in order; it is history that nothing reads. -/
structure Host where
  files : Option FileStore := some {}
  canExit : Bool := true
  brokenOutput : Bool := false
  hasUserInterface : Bool := false
  /-- The least important level of records that are kept. -/
  logLevel : Option Level := none
  /-- A file for the records that is still to be opened. It is made when the first one comes. -/
  logFile : Option Text := none
  stdout : Text := []
  exits : List Int := []
  uiNotes : List Text := []
  disposed : List Text := []
  closed : List Nat := []
  logs : List LogRecord := []
deriving DecidableEq

/-- Keeps a log record. -/
def Host.keep (record : LogRecord) (h : Host) : Host :=
  let h := { h with logs := h.logs ++ [record] }
  match h.logFile, h.files with
  | some path, some store =>
    { h with logFile := none, files := some { store with table := store.table.ensureFile path } }
  | _, _ => h

/-- Everything that operations read and change. Node `i` stands at place `i - 1`, and so does the
object with token `i`. -/
structure World where
  settings : Settings := {}
  nodes : Array Node := #[]
  objects : Array Object := #[]
  host : Host := {}
  /-- The present instant. -/
  clock : Int := 1750000000000000000
  /-- The first instant at which a call goes on that waits while a worker runs an item. -/
  horizon : Option Int := none
  /-- How many event identifiers have been drawn. -/
  drawn : Nat := 0
  /-- How many nodes have been populated. -/
  populated : Nat := 0
  closed : Bool := false
deriving DecidableEq

/-- An operation that may be refused. -/
abbrev Op := EStateM Fault World

namespace World

/-- The root of the tree. -/
def root : NodeId := 1

/-- A node by number, whether or not it is still part of the tree. -/
def node? (w : World) (id : NodeId) : Option Node :=
  if id = 0 then none else w.nodes[id - 1]?

/-- A node that is part of the tree and not about to leave it. -/
def live? (w : World) (id : NodeId) : Option Node := (w.node? id).filter Node.isLive

/-- A node that is part of the tree. -/
def attached? (w : World) (id : NodeId) : Option Node := (w.node? id).filter Node.attached

/-- Changes one node. -/
def modifyNode (id : NodeId) (f : Node → Node) (w : World) : World :=
  if id = 0 then w else { w with nodes := w.nodes.modify (id - 1) f }

/-- An object by token. -/
def object? (w : World) (token : Nat) : Option Object :=
  if token = 0 then none else w.objects[token - 1]?

def modifyObject (token : Nat) (f : Object → Object) (w : World) : World :=
  if token = 0 then w else { w with objects := w.objects.modify (token - 1) f }

def modifyHost (f : Host → Host) (w : World) : World := { w with host := f w.host }

/-- How many nodes are part of the tree. -/
def size (w : World) : Nat := (w.nodes.filter Node.attached).size

/-- Keeps a log record, if its level matters enough. -/
def log (level : Level) (message : Text) (fields : List (Text × Text)) (w : World) : World :=
  match w.host.logLevel with
  | none => w
  | some least =>
    if level.severity ≤ least.severity then w.modifyHost (Host.keep ⟨level, message, fields⟩)
    else w

/-- Keeps a log record about a node. -/
def logNode (level : Level) (id : NodeId) (message : Text) (fields : List (Text × Text))
    (w : World) : World :=
  match w.node? id with
  | none => w
  | some n =>
    w.log level message ([field "node" (Text.ofNat n.id), field "path" n.birthPath] ++ fields)

/-- Draws an event identifier. -/
def drawId (w : World) : EventId × World :=
  (.drawn (w.drawn + 1), { w with drawn := w.drawn + 1 })

end World

/-- No interpreter answers to a path. -/
def Fault.noInterpreter (path : Text) : Fault :=
  .of .notFound ("could not find interpreter " ++ Text.quoted path)

namespace Op

/-- The node `id`. Every operation is given a node that was made; another one cannot be found. -/
def node (id : NodeId) : Op Node := do
  match (← get).node? id with
  | some n => return n
  | none => throw (.noInterpreter [])

def change (f : World → World) : Op Unit := modify f

/-- Refuses unless a condition holds. -/
def require {σ : Type} (condition : Bool) (fault : Fault) : EStateM Fault σ Unit :=
  if condition then pure () else throw fault

/-- The outcome of a computation that may be refused. -/
def lift {σ α : Type} : Except Fault α → EStateM Fault σ α
  | .ok a => pure a
  | .error f => throw f

end Op

end InterpTree
