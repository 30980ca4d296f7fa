import InterpTree.Tree.Trust

/-!
New interpreters. A node is populated with commands and stripped of those that its trust does not
allow before it becomes part of the tree, so nobody ever sees it half made.
-/

namespace InterpTree

namespace Builtin

/-- The commands of the script language in the order of definition, with the interpreters in which
they stay visible. -/
def table : List (Builtin × Text × CommandFlags) :=
  [(.set, "set", .everywhere), (.unset, "unset", .everywhere), (.incr, "incr", .everywhere),
    (.list, "list", .everywhere), (.listLength, "llength", .everywhere),
    (.listIndex, "lindex", .everywhere), (.puts, "puts", .everywhere),
    (.eval, "eval", .everywhere), (.catching, "catch", .everywhere),
    (.raise, "error", .everywhere), (.leaveLoop, "break", .everywhere),
    (.nextTurn, "continue", .everywhere), (.repeating, "repeat", .everywhere),
    (.conditional, "if", .everywhere), (.string, "string", .everywhere),
    (.proc, "proc", .everywhere), (.info, "info", .everywhere), (.after, "after", .everywhere),
    (.spin, "spin", .everywhere), (.policyInfo, "policyinfo", .everywhere),
    (.file, "file", { standard := true }), (.source, "source", { standard := true }),
    (.exit, "exit", {})]

/-- Whether a command is only for interpreters with the full profile. -/
def isFullOnly (b : Builtin) : Bool := b = .exit

/-- What defines a command of the script language. -/
def spec (entry : Builtin × Text × CommandFlags) : CommandSpec :=
  { name := entry.2.1, flags := entry.2.2, action := some (.builtin entry.1) }

/-- The definitions that an interpreter with a profile gets. -/
def specs (profile : Profile) : List CommandSpec :=
  (table.filter fun entry => !(entry.1.isFullOnly && profile != .full)).map spec

end Builtin

/-- The command that controls the tree. -/
def ensembleSpec : CommandSpec :=
  { name := "interp", flags := .everywhere, action := some .ensemble }

namespace Node

/-- The node with some definitions more. -/
def defineAll (specs : List CommandSpec) (n : Node) : Except Fault Node :=
  specs.foldlM (fun n spec => (n.define spec).map Prod.snd) n

/-- A new node below `parent`, not yet part of the tree. -/
def fresh (id : NodeId) (name : Text) (parent : NodeId) (path : Text) (trust : Trust)
    (limits : Limits) (now : Int) : Node :=
  { id, name, parent, path, home := parent, birthPath := path, trust
    cancel := .start limits now, queue := { owner := id } }

/-- Hides the commands that the trust of the node does not allow. -/
def hideDistrusted (n : Node) : Node :=
  let n := if n.trust.safe then { n with commands := n.commands.hideFor .safe } else n
  if n.trust.standard then { n with commands := n.commands.hideFor .standard } else n

/-- The node as it becomes part of the tree. -/
def join (n : Node) : Node := { n.hideDistrusted with attached := true }

end Node

/-- The commands that `populated` populations so far leave for the next node. -/
def Settings.populate (s : Settings) (populated : Nat) (n : Node) : Except Fault Node := do
  if s.failFrom > 0 && populated + 1 ≥ s.failFrom then throw (.saying "no commands today")
  match s.population with
  | .nothing => return n
  | .script => n.defineAll (Builtin.specs n.trust.profile)
  | .full => n.defineAll (Builtin.specs n.trust.profile ++ [ensembleSpec])
  | .refusing =>
    let n ← n.defineAll (Builtin.specs n.trust.profile)
    if n.isRoot then return n else throw (.of .permissionDenied "extra refused")

/-- The flags of a new interpreter. It has the namespaces of its parent unless told otherwise. -/
structure CreateOptions where
  safe : Bool := false
  standard : Bool := false
  /-- Populate with the full profile even if the node is safe. -/
  fullCommands : Bool := false
  /-- Do not populate. -/
  noCommands : Bool := false
  namespaces : Option Bool := none
deriving DecidableEq

namespace CreateOptions

/-- The trust of a node created by a caller under a parent. -/
def trust (o : CreateOptions) (caller parent : Trust) : Trust :=
  let safe := o.safe || parent.safe || caller.safe
  { safe, standard := o.standard, namespaces := o.namespaces.getD parent.namespaces
    profile := if o.noCommands then .none else if safe && !o.fullCommands then .safe else .full }

end CreateOptions

namespace Fault

def interpreterExists (path : Text) : Fault :=
  .of .alreadyExists
    ("interpreter named " ++ Text.quoted path ++ " already exists, cannot create")

end Fault

namespace World

/-- Posts a cancellation on a node. -/
def postCancel (id : NodeId) (force unwind : Bool) (message : Text) (w : World) :
    Except Fault World :=
  match w.node? id with
  | none => .error (.noInterpreter [])
  | some n =>
    (n.cancel.cancel force unwind message).map fun c =>
      (w.modifyNode id fun n => { n with cancel := c }).logNode .debug id "cancellation posted"
        [field "unwind" (flagField unwind), field "force" (flagField force)]

/-- Closes the value of an object, as it allows, and gives the reason if that fails. -/
def dispose (o : Object) (w : World) : Option Fault × World :=
  let noted := w.modifyHost fun h =>
    { h with disposed := h.disposed ++ [o.name], closed := h.closed ++ [o.token] }
  match o.value.disposal with
  | .ignored => (none, w)
  | .closes => (none, noted)
  | .fails => (some (.saying "close failed"), noted)

/-- Disposes of an object of a node that goes away. -/
def disposeFor (id : NodeId) (w : World) (o : Object) : World :=
  if o.noDispose then w
  else
    match w.dispose o with
    | (none, w) => w
    | (some f, w) =>
      w.logNode .warning id "dispose object" [field "error" f.text, field "object" o.name]

/-- Clears the registries of a node and disposes of the objects that it owns. -/
def drop (id : NodeId) (w : World) : World :=
  match w.node? id with
  | none => w
  | some n =>
    let owned := n.objects.filterMap fun entry => w.object? entry.2
    let w := w.modifyNode id fun n =>
      { n with objects := [], commands := [], aliases := [], policies := [], links := [] }
    let w := owned.foldl (disposeFor id) w
    w.modifyNode id fun n => { n with queue := n.queue.clear }

/-- Stops the watchdog of a node and tells whether there was one. -/
def stopWatchdog (id : NodeId) (w : World) : Bool × World :=
  match w.node? id with
  | none => (false, w)
  | some n =>
    let (stopped, c) := n.cancel.stopWatchdog
    if stopped then
      (true, (w.modifyNode id fun n => { n with cancel := c }).logNode .debug id
        "watchdog stopped" [])
    else (false, w)

/-- Stops what runs on behalf of a node: its watchdog, its evaluations, its context. -/
def stopAll (id : NodeId) (w : World) : World :=
  let w := (w.stopWatchdog id).2
  let w := (w.postCancel id true true "interpreter deleted").toOption.getD w
  w.modifyNode id fun n => { n with ended := true }

/-- The world with one more node. -/
def enroll (n : Node) (w : World) : World := { w with nodes := w.nodes.push n }

/-- The world after one more population. -/
def tally (w : World) : World := { w with populated := w.populated + 1 }

/-- The world with one more node, as `populate` makes it, or the reason why it could not be populated;
then the node is of no use to anybody. Nothing but the new node is touched by `populate`. -/
def introduceBy (populate : Node → Except Fault Node) (name : Text) (parent : NodeId) (path : Text)
    (trust : Trust) (w : World) : Except Fault NodeId × World :=
  let id := w.nodes.size + 1
  let n := Node.fresh id name parent path trust w.settings.limits w.clock
  if trust.profile = .none then (.ok id, w.enroll n)
  else
    match populate n with
    | .ok n => (.ok id, (w.enroll n).tally)
    | .error f => (.error f, (((w.enroll { n with released := true }).tally).stopAll id).drop id)

/-- The world with one more node, which gets the commands that the settings say. -/
def introduce (name : Text) (parent : NodeId) (path : Text) (trust : Trust) (w : World) :
    Except Fault NodeId × World :=
  w.introduceBy (w.settings.populate w.populated) name parent path trust

/-- A tree that holds only its root, trusted with everything. -/
def plant (settings : Settings) (host : Host) : Except Fault World :=
  match ({ settings, host } : World).introduce [] 0 [] {} with
  | (.ok root, w) => .ok (w.modifyNode root fun n => { n with attached := true })
  | (.error f, _) => .error (.because .internal "initialize root interpreter" f)

end World

namespace Op

/-- Creates the child `name` under the node at `path`, as `populate` makes it. -/
def createBy (populate : World → Node → Except Fault Node) (caller : NodeId) (path name : Text)
    (options : CreateOptions) : Op NodeId := do
  require (isValidName name)
    (.of .invalidArgument ("invalid interpreter name " ++ Text.quoted name))
  let c ← node caller
  require (!(c.trust.safe && options.standard))
    (.of .permissionDenied
      "permission denied: safe interpreter cannot create standard interpreters")
  require (!(c.trust.safe && options.fullCommands))
    (.of .permissionDenied
      "permission denied: safe interpreter cannot use unsafe initialization")
  let parent ← node (← resolve caller path)
  let full := joinPath path name
  require (parent.link? name).isNone (.interpreterExists full)
  let trust := options.trust c.trust parent.trust
  let w ← get
  let (made, w) := w.introduceBy (populate w) name parent.id (joinPath parent.path name) trust
  set w
  match made with
  | .error f =>
    throw (.because .internal ("initialize interpreter " ++ Text.quoted full) f)
  | .ok id =>
    change (World.modifyNode id Node.join)
    change (World.modifyNode parent.id (Node.addLink { name, target := id }))
    change (World.logNode .debug id "interpreter created"
      [field "safe" (flagField trust.safe), field "profile" trust.profile.name])
    return id

/-- Creates the child `name` under the node at `path`, with the commands that the settings say. -/
def create (caller : NodeId) (path name : Text) (options : CreateOptions) : Op NodeId :=
  createBy (fun w => w.settings.populate w.populated) caller path name options

end Op

end InterpTree
