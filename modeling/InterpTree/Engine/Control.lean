import InterpTree.Engine.Options
import InterpTree.Engine.Guards
import InterpTree.Engine.Waiting
import InterpTree.Tree.Aliases
import InterpTree.Tree.Policies
import InterpTree.Tree.Share
import InterpTree.Tree.Objects

/-!
The `interp` command, through which scripts control the tree. Its subcommands read their words and
leave the rules to the operations on the tree; only what concerns the supervision of a node is
decided here.
-/

namespace InterpTree

namespace Control

/-- A call of a subcommand: in which node, by which name, in which context. -/
structure Invocation where
  context : Context
  node : NodeId
  name : Text

/-- The call of a subcommand that a call of the whole command makes. -/
def Invocation.of (call : Call) (name : Text) : Invocation :=
  ⟨call.context.getD (.ofNode call.node), call.node, name⟩

/-- A subcommand with the number of words that it takes. -/
structure Subcommand where
  name : Text
  usage : Text
  least : Nat
  most : Option Nat := none
  run : Engine → Invocation → List Text → Act Completion

/-- Refuses a safe caller that would change how a node that it runs in is supervised. -/
def supervise (i : Invocation) (target : NodeId) (action : Text) : Op Unit := do
  let n ← Op.node i.node
  Op.require (!(n.trust.safe && (← get).isWithin i.node target))
    (.of .permissionDenied ("permission denied: safe interpreter cannot " ++ action))

/-- Keeps a log record of a subcommand about a path. -/
def logAbout (i : Invocation) (message path : Text) (fields : List (Text × Text)) : Op Unit :=
  Op.change (World.log .debug message
    ([field "node" (Text.ofNat i.node), field "path" path, field "subcommand" i.name] ++ fields))

/-- A subcommand that needs no scripts run. -/
def plain (f : Invocation → List Text → Op Text) :
    Engine → Invocation → List Text → Act Completion :=
  fun _ i words => Act.perform (f i words)

/-- A subcommand that releases nodes, and waits for their workers to end. -/
def releasing (f : Invocation → List Text → Op Text) :
    Engine → Invocation → List Text → Act Completion :=
  fun e i words => e.pace.settled (Act.perform (f i words))

/-- A plain subcommand that gives a list. -/
def listing (f : Invocation → Text → Op (List Text)) :
    Engine → Invocation → List Text → Act Completion :=
  plain fun i words => do return Script.formatList (← f i (words.headD []))

def wrongArgs (usage : Text) : Fault :=
  .of .invalidArgument ("wrong # args: should be " ++ Text.quoted usage)

/-- The first free name for a child of a node. -/
def generatedName (id : NodeId) (w : World) : Text :=
  let names := (List.range (w.nodes.size + 1)).map fun i => ("interp" ++ Text.ofNat i : Text)
  (names.find? fun name => !w.pathExists id name).getD []

def createUsage : Text :=
  "?-safe? ?-standard? ?-unsafeinitialize? ?-noinitialize? ?-nonamespaces? ?--? ?path?"

def create (i : Invocation) (words : List Text) : Op Text := do
  let (options, rest) ← Op.lift (Options.parse
    [⟨"-safe", false⟩, ⟨"-standard", false⟩, ⟨"-unsafeinitialize", false⟩,
      ⟨"-noinitialize", false⟩, ⟨"-nonamespaces", false⟩] words)
  Op.require (rest.length ≤ 1) (wrongArgs ("interp create " ++ createUsage))
  let given := rest.headD []
  let w ← get
  let path := if given.isEmpty then generatedName i.node w else given
  let (parent, name) := splitPath path
  let _ ← Op.create i.node parent name
    { safe := options.has "-safe", standard := options.has "-standard"
      fullCommands := options.has "-unsafeinitialize", noCommands := options.has "-noinitialize"
      namespaces := if options.has "-nonamespaces" then some false else none }
  logAbout i "interpreter created" path []
  return path

def delete (i : Invocation) (words : List Text) : Op Text := do
  words.forM fun path => Op.delete i.context.worker i.node path
  return []

def aliasWords (i : Invocation) : List Text → Op Text
  | path :: name :: rest => do
    match ← Op.aliasByShape i.node path name rest with
    | none => return []
    | some a =>
      if rest.isEmpty then return Script.formatList (a.targetName :: a.bound)
      else return a.source
  | _ => return []

def backgroundError (i : Invocation) (words : List Text) : Op Text := do
  let target ← Op.resolve i.node (words.headD [])
  match words with
  | [_, handler] =>
    match Script.splitList handler with
    | .error f => throw (.malformed f)
    | .ok handler =>
      Op.change (World.modifyNode target fun n => { n with backgroundError := handler })
  | _ => pure ()
  return Script.formatList (← Op.node target).backgroundError

/-- Whether something holds of the trust of the node at an optional path. -/
def trustQuery (get : Trust → Bool) (i : Invocation) (words : List Text) : Op Text := do
  let target ← Op.resolve i.node (words.headD [])
  return Text.ofBool (get (← Op.node target).trust)

/-- Asks for a flag of the node at a path, or changes it if there is a second word. -/
def toggle (get : Trust → Bool) (change : NodeId → Text → Bool → Op Unit) (i : Invocation)
    (words : List Text) : Op Text := do
  match words with
  | [path, word] =>
    let on ← Op.lift (Text.toBool word)
    change i.node path on
    return Text.ofBool on
  | _ =>
    let target ← Op.resolve i.node (words.headD [])
    return Text.ofBool (get (← Op.node target).trust)

/-- Sets a flag of the node at a path unless the second word says otherwise. -/
def switchOn (get : Trust → Bool) (change : NodeId → Text → Bool → Op Unit) (i : Invocation)
    (words : List Text) : Op Text :=
  match words with
  | [path] => toggle get change i [path, "1"]
  | words => toggle get change i words

def policyUsage : Text :=
  "?-type type? ?-token token? ?-invoke? ?-evaluate? ?-plugin name? ?--? path script"

def policy (i : Invocation) (words : List Text) : Op Text := do
  let (options, rest) ← Op.lift (Options.parse
    [⟨"-type", true⟩, ⟨"-token", true⟩, ⟨"-invoke", false⟩, ⟨"-evaluate", false⟩,
      ⟨"-plugin", true⟩] words)
  match rest with
  | [path, script] =>
    let token ←
      match options.value? "-token" with
      | none => pure 0
      | some word => Op.lift (Text.toWord word)
    Op.addPolicy i.node path
      { onInvoke := options.has "-invoke", onEvaluate := options.has "-evaluate"
        type := (options.value? "-type").getD [], token, script
        plugin := (options.value? "-plugin").getD [] }
  | _ => throw (wrongArgs ("interp policy " ++ policyUsage))

def cancelUsage : Text := "?-unwind? ?-force? ?--? ?path? ?message?"

/-- What a cancel subcommand asks for: on which node, how, and with which message. -/
def cancelWords (i : Invocation) (words : List Text) : Op (NodeId × Bool × Bool × Text) := do
  let (options, rest) ← Op.lift (Options.parse [⟨"-unwind", false⟩, ⟨"-force", false⟩] words)
  Op.require (rest.length ≤ 2) (wrongArgs ("interp cancel " ++ cancelUsage))
  let target ← Op.resolve i.node (rest.headD [])
  return (target, options.has "-force", options.has "-unwind", rest.getD 1 [])

def cancel (i : Invocation) (words : List Text) : Op Text := do
  let (target, force, unwind, message) ← cancelWords i words
  let w ← Op.lift ((← get).postCancel target force unwind message)
  set w
  return []

def resetCancelUsage : Text := "?-force? ?--? ?path?"

/-- What a reset subcommand asks for: on which node, and whether by force. -/
def resetCancelWords (i : Invocation) (words : List Text) : Op (NodeId × Bool) := do
  let (options, rest) ← Op.lift (Options.parse [⟨"-force", false⟩] words)
  Op.require (rest.length ≤ 1) (wrongArgs ("interp resetcancel " ++ resetCancelUsage))
  let target ← Op.resolve i.node (rest.headD [])
  return (target, options.has "-force")

def resetCancel (i : Invocation) (words : List Text) : Op Text := do
  let (target, force) ← resetCancelWords i words
  if force then supervise i target "force a cancellation reset"
  let (done, c) := (← Op.node target).cancel.reset force
  Op.change (World.modifyNode target fun n => { n with cancel := c })
  return Text.ofBool done

def cancelState (i : Invocation) (words : List Text) : Op Text := do
  let target ← Op.resolve i.node (words.headD [])
  return (← Op.node target).cancel.state.name

def watchdog (i : Invocation) (words : List Text) : Op Text := do
  let target ← Op.resolve i.node (words.getD 1 [])
  let option := words.headD []
  if option == Text.ofString "start" then
    supervise i target "start its own watchdog"
    return Text.ofBool (← modifyGet (World.startWatchdog target))
  else if option == Text.ofString "stop" then
    supervise i target "stop its own watchdog"
    return Text.ofBool (← modifyGet (World.stopWatchdog target))
  else if option == Text.ofString "status" then
    return Text.ofBool (← Op.node target).cancel.watchdog.isSome
  else
    throw (.of .invalidArgument
      ("bad option " ++ Text.quoted option ++ ": must be start, status, or stop"))

/-- A limit as scripts see it: spans in whole milliseconds. -/
def shownLimit (f : Limits.Field) (l : Limits) : Int :=
  if f.isSpan then (l.get f).tdiv millisecond else l.get f

/-- Asks for a limit of a node, or changes it, which a safe caller may not. -/
def limit (f : Limits.Field) (i : Invocation) (words : List Text) : Op Text := do
  let target ← Op.node (← Op.resolve i.node (words.headD []))
  match words with
  | [_, word] =>
    Op.require (!(← Op.node i.node).trust.safe)
      (.of .permissionDenied ("permission denied: safe interpreter cannot set " ++ i.name))
    let value ← Op.lift (Text.toInt word)
    let bound := if f.isSpan then spanOfMilliseconds value else value
    let c ← Op.lift (target.cancel.setLimit f bound)
    Op.change (World.modifyNode target.id fun n => { n with cancel := c })
    logAbout i "limit changed" target.path [field "value" (Text.ofInt value)]
    return Text.ofInt value
  | _ => return Text.ofInt (shownLimit f target.cancel.limits)

def queueUsage : Text := "?-delay milliseconds? ?-priority priority? ?--? path script"

def queue (i : Invocation) (words : List Text) : Op Text := do
  let (options, rest) ← Op.lift (Options.parse [⟨"-delay", true⟩, ⟨"-priority", true⟩] words)
  match rest with
  | [path, script] =>
    let target ← Op.resolve i.node path
    let due ←
      match options.value? "-delay" with
      | none => pure none
      | some word =>
        let ms ← Op.lift (Text.toInt word)
        pure (some ((← get).clock + spanOfMilliseconds ms))
    let priority ←
      match options.value? "-priority" with
      | none => pure 0
      | some word => Op.lift (Text.toPriority word)
    let event ← modifyGet (World.enqueue target none due false script priority)
    return event.text
  | _ => throw (wrongArgs ("interp queue " ++ queueUsage))

def dequeue (i : Invocation) : List Text → Op Text
  | path :: word :: _ => do
    let target ← Op.node (← Op.resolve i.node path)
    match target.queue.toList.find? fun event => event.id.text == word with
    | none => return Text.ofBool false
    | some event =>
      let (removed, queue) := target.queue.remove event.id
      Op.change (World.modifyNode target.id fun n => { n with queue })
      return Text.ofBool removed
  | _ => return []

def serviceUsage : Text :=
  "?-dedicated? ?-wait? ?-nocancel? ?-noerror? ?-erroronempty? ?-userinterface? " ++
    "?-limit count? ?-priority priority? ?--? ?path?"

/-- What a service subcommand asks for: in which node, how, and whether on a worker. -/
def serviceWords (i : Invocation) (words : List Text) : Op (NodeId × ServiceOptions × Bool) := do
  let (options, rest) ← Op.lift (Options.parse
    [⟨"-dedicated", false⟩, ⟨"-wait", false⟩, ⟨"-nocancel", false⟩, ⟨"-noerror", false⟩,
      ⟨"-erroronempty", false⟩, ⟨"-userinterface", false⟩, ⟨"-limit", true⟩,
      ⟨"-priority", true⟩] words)
  Op.require (rest.length ≤ 1) (wrongArgs ("interp service " ++ serviceUsage))
  let target ← Op.resolve i.node (rest.headD [])
  let limit ←
    match options.value? "-limit" with
    | none => pure 0
    | some word => Op.lift (Text.toInt word)
  let floor ←
    match options.value? "-priority" with
    | none => pure ServiceOptions.standard.floor
    | some word => Op.lift (Text.toPriority word)
  return (target,
    { wait := options.has "-wait", floor, limit, noCancel := options.has "-nocancel"
      stopOnError := !options.has "-noerror", errorOnEmpty := options.has "-erroronempty"
      userInterface := options.has "-userinterface" },
    options.has "-dedicated")

def service (e : Engine) (i : Invocation) (words : List Text) : Act Completion := do
  match ← Act.attempt (serviceWords i words) with
  | .error f => return .fail f
  | .ok (target, options, true) =>
    Act.perform do
      supervise i target "start its own dedicated service loop"
      Op.serviceDedicated target options
      return []
  | .ok (target, options, false) =>
    match ← e.serviceEvents (some i.context) target options with
    | (_, .error f) => return .fail f
    | (report, .ok ()) => return .ok (Text.ofNat report.serviced)

def invokeHiddenUsage : Text := "path ?-global? ?--? hiddenCmdName ?arg ...?"

def invokeHidden (e : Engine) (i : Invocation) (words : List Text) : Act Completion :=
  match Options.parse [⟨"-global", false⟩] (words.drop 1) with
  | .error f => return .fail f
  | .ok (_, []) => return .fail (wrongArgs ("interp invokehidden " ++ invokeHiddenUsage))
  | .ok (options, name :: args) =>
    e.invokeHidden (some i.context) i.node (words.headD []) name args (options.has "-global")

def eval (e : Engine) (i : Invocation) (words : List Text) : Act Completion :=
  e.evaluateIn (some i.context) i.node (words.headD []) (Text.words (words.drop 1))

/-- The subcommands, in byte order of their names. -/
def subcommands : List Subcommand :=
  [⟨"alias", "srcPath srcCmd ?targetPath targetCmd? ?arg ...?", 2, none, plain aliasWords⟩,
    ⟨"aliases", "?path?", 0, some 1, listing fun i path => Op.aliases i.node path⟩,
    ⟨"bgerror", "path ?cmdPrefix?", 1, some 2, plain backgroundError⟩,
    ⟨"cancel", cancelUsage, 0, none, plain cancel⟩,
    ⟨"cancelstate", "?path?", 0, some 1, plain cancelState⟩,
    ⟨"children", "?path?", 0, some 1, listing fun i path => Op.children i.node path⟩,
    ⟨"create", createUsage, 0, none, plain create⟩,
    ⟨"delete", "?path ...?", 0, none, releasing delete⟩,
    ⟨"dequeue", "path id", 2, some 2, plain dequeue⟩,
    ⟨"disposeshared", "path", 1, some 1, releasing fun i words => do
      Op.disposeShared i.context.worker i.node (words.headD [])
      return []⟩,
    ⟨"eval", "path arg ?arg ...?", 2, none, eval⟩,
    ⟨"exists", "path", 1, some 1, plain fun i words => do
      return Text.ofBool ((← get).pathExists i.node (words.headD []))⟩,
    ⟨"expose", "path hiddenCmdName ?cmdName?", 2, some 3, plain fun i words => do
      Op.expose i.node (words.headD []) (words.getD 1 []) (words.getD 2 [])
      return []⟩,
    ⟨"finallytimeout", "?path? ?milliseconds?", 0, some 2, plain (limit .finallyTimeout)⟩,
    ⟨"hidden", "?path?", 0, some 1, listing fun i path => Op.hidden i.node path⟩,
    ⟨"hide", "path cmdName ?hiddenCmdName?", 2, some 3, plain fun i words => do
      Op.hide i.node (words.headD []) (words.getD 1 []) (words.getD 2 [])
      return []⟩,
    ⟨"immutable", "path ?boolean?", 1, some 2, plain (toggle Trust.immutable Op.setImmutable)⟩,
    ⟨"invokehidden", invokeHiddenUsage, 2, none, invokeHidden⟩,
    ⟨"issafe", "?path?", 0, some 1, plain (trustQuery Trust.safe)⟩,
    ⟨"isstandard", "?path?", 0, some 1, plain (trustQuery Trust.standard)⟩,
    ⟨"istrusted", "?path?", 0, some 1, plain (trustQuery Trust.trusted)⟩,
    ⟨"makesafe", "path ?boolean?", 1, some 2, plain (switchOn Trust.safe Op.makeSafe)⟩,
    ⟨"makestandard", "path ?boolean?", 1, some 2, plain (switchOn Trust.standard Op.makeStandard)⟩,
    ⟨"marktrusted", "path", 1, some 1, plain fun i words => do
      Op.markTrusted i.node (words.headD [])
      return []⟩,
    ⟨"nopolicy", "path policyName", 2, some 2, plain fun i words => do
      Op.removePolicy i.node (words.headD []) (words.getD 1 [])
      return []⟩,
    ⟨"objects", "?path?", 0, some 1, listing fun i path => do
      return (← Op.node (← Op.resolve i.node path)).objectNames⟩,
    ⟨"policies", "?path?", 0, some 1, listing fun i path => Op.policies i.node path⟩,
    ⟨"policy", policyUsage, 2, none, plain policy⟩,
    ⟨"queue", queueUsage, 2, none, plain queue⟩,
    ⟨"queued", "?path?", 0, some 1, listing fun i path => do
      let target ← Op.node (← Op.resolve i.node path)
      return target.queue.toList.map fun event => event.id.text⟩,
    ⟨"readonly", "path ?boolean?", 1, some 2, plain (toggle Trust.readOnly Op.setReadOnly)⟩,
    ⟨"readylimit", "?path? ?limit?", 0, some 2, plain (limit .readyLimit)⟩,
    ⟨"recursionlimit", "?path? ?limit?", 0, some 2, plain (limit .recursionLimit)⟩,
    ⟨"resetcancel", resetCancelUsage, 0, none, plain resetCancel⟩,
    ⟨"resultlimit", "?path? ?limit?", 0, some 2, plain (limit .resultLimit)⟩,
    ⟨"service", serviceUsage, 0, none, service⟩,
    ⟨"shareinterp", "path srcPath", 2, some 2, plain fun i words =>
      Op.shareInterp i.node (words.headD []) (words.getD 1 [])⟩,
    ⟨"shareobject", "path objectName", 2, some 2, plain fun i words => do
      return Text.ofNat (← Op.shareObject i.node (words.headD []) (words.getD 1 []))⟩,
    ⟨"slaves", "?path?", 0, some 1, listing fun i path => Op.children i.node path⟩,
    ⟨"sleeptime", "?path? ?milliseconds?", 0, some 2, plain (limit .sleepTime)⟩,
    ⟨"target", "path alias", 2, some 2, plain fun i words =>
      Op.aliasTarget i.node (words.headD []) (words.getD 1 [])⟩,
    ⟨"timeout", "?path? ?milliseconds?", 0, some 2, plain (limit .timeout)⟩,
    ⟨"watchdog", "start|stop|status ?path?", 1, some 2, plain watchdog⟩]

/-- The names of the subcommands. -/
def names : List Text := subcommands.map Subcommand.name

/-- Runs a subcommand on its words, if their number is right. -/
def Subcommand.apply (s : Subcommand) (e : Engine) (call : Call) (words : List Text) :
    Act Completion :=
  if words.length < s.least || s.most.any (· < words.length) then
    return .fail (wrongArgs (call.name ++ " " ++ s.name ++ " " ++ s.usage))
  else s.run e (.of call s.name) words

/-- Runs the subcommand that the first word of a call names. -/
def dispatch (e : Engine) (call : Call) : Act Completion :=
  match call.args with
  | [] => return .fail (wrongArgs (call.name ++ " subcommand ?arg ...?"))
  | name :: words =>
    match subcommands.find? fun s => s.name == name with
    | none =>
      return .fail (.of .invalidArgument
        ("bad option " ++ Text.quoted name ++ ": must be " ++ Options.oneOf names))
    | some s => s.apply e call words

end Control

end InterpTree
