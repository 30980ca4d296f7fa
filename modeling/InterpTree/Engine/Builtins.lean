import InterpTree.Engine.Evaluate
import InterpTree.Engine.Waiting
import InterpTree.Tree.Commands

/-!
The commands of the script language. Each takes its words as they were substituted and comes to a
completion; most do so at once, some run scripts, and two let time pass.
-/

namespace InterpTree

/-- The refusal of a word that ought to be an integer. -/
def notInteger (word : Text) : Completion :=
  .failWith ("expected integer but got " ++ Text.quoted word)

namespace Call

/-- The variables of the node that a call runs in. -/
def vars (call : Call) : Act Variables := Act.ofNode call.node Node.vars

def setVar (call : Call) (name value : Text) : Act Unit :=
  Act.modifyNode call.node fun n => { n with vars := n.vars.set name value }

/-- Reads a variable or gives it a value. -/
def set (call : Call) : Act Completion := do
  match call.args with
  | [name] =>
    match (← call.vars).get? name with
    | none => return .fail (.noVariable name)
    | some value => return .ok value
  | [name, value] =>
    call.setVar name value
    return .ok value
  | _ => return .wrongArgs "set varName ?newValue?"

/-- Removes variables one after the other; if it is strict, up to the first that is not there. -/
def unsetAll (call : Call) (strict : Bool) : List Text → Act Completion
  | [] => return .ok []
  | name :: rest => do
    let (found, vars) := (← call.vars).unset name
    Act.modifyNode call.node fun n => { n with vars }
    if !found && strict then
      return .fail (.of .notFound ("can't unset " ++ Text.quoted name ++ ": no such variable"))
    else call.unsetAll strict rest

def unset (call : Call) : Act Completion :=
  match call.args with
  | [] => call.unsetAll true []
  | first :: rest =>
    if first == Text.ofString "-nocomplain" then call.unsetAll false rest
    else call.unsetAll true (first :: rest)

/-- Adds to a variable, which starts from zero if it is not there. -/
def addTo (call : Call) (name : Text) (amount : Int) : Act Completion := do
  let current := (← call.vars).get? name
  match current.elim (some 0) Text.toInt? with
  | none => return notInteger (current.getD [])
  | some i =>
    let sum := Text.ofInt (wrap64 (i + amount))
    call.setVar name sum
    return .ok sum

def incr (call : Call) : Act Completion :=
  match call.args with
  | [name] => call.addTo name 1
  | [name, word] =>
    match Text.toInt? word with
    | none => return notInteger word
    | some i => call.addTo name i
  | _ => return .wrongArgs "incr varName ?increment?"

def listLength (call : Call) : Completion :=
  match call.args with
  | [word] =>
    match Script.splitList word with
    | .error f => .fail (.malformed f)
    | .ok items => .ok (Text.ofNat items.length)
  | _ => .wrongArgs "llength list"

/-- The item at an index; no item stands before the first or after the last. -/
def listIndex (call : Call) : Completion :=
  match call.args with
  | [word, index] =>
    match Script.splitList word with
    | .error f => .fail (.malformed f)
    | .ok items =>
      match Text.toInt? index with
      | none => .failWith ("bad index " ++ Text.quoted index)
      | some i => .ok (if i < 0 then [] else items.getD i.toNat [])
  | _ => .wrongArgs "lindex list index"

/-- Writes a text to the output of the host. -/
def write (text : Text) : Act Completion := do
  if (← get).host.brokenOutput then return .failWith "broken pipe"
  else
    modify (World.modifyHost fun h => { h with stdout := h.stdout ++ text })
    return .ok []

def puts (call : Call) : Act Completion :=
  match call.args with
  | [text] => write (text ++ [Text.newline])
  | [option, text] =>
    if option == Text.ofString "-nonewline" then write text
    else return .wrongArgs "puts ?-nonewline? string"
  | _ => return .wrongArgs "puts ?-nonewline? string"

/-- Evaluates a script in the node of the call. -/
def evaluate (e : Engine) (call : Call) (script : Text) : Act Completion :=
  e.evaluate call.context call.node script

def eval (e : Engine) (call : Call) : Act Completion :=
  if call.args.isEmpty then return .wrongArgs "eval arg ?arg ...?"
  else call.evaluate e (Text.words call.args)

/-- Whether a completion is that of an unwinding cancellation. -/
def isUnwinding (c : Completion) : Bool :=
  c.isError && (c.fault.bind Fault.cancelReason?).any CancelReason.unwind

/-- Gives the status of a script. An unwinding cancellation cannot be caught. -/
def catchScript (e : Engine) (call : Call) (script : Text) (name : Option Text) :
    Act Completion := do
  let result ← call.evaluate e script
  if isUnwinding result then return result
  else
    match name with
    | none => pure ()
    | some name => call.setVar name result.value
    return .ok (Text.ofInt result.status.code)

def catching (e : Engine) (call : Call) : Act Completion :=
  match call.args with
  | [script] => call.catchScript e script none
  | [script, name] => call.catchScript e script (some name)
  | _ => return .wrongArgs "catch script ?varName?"

def raise (call : Call) : Completion :=
  match call.args with
  | [message] => .failWith message
  | _ => .wrongArgs "error message"

/-- Ends the loop around it, or the turn of that loop. -/
def jump (call : Call) (status : Status) : Completion :=
  if call.args.isEmpty then { status } else .wrongArgs status.name

/-- Runs a script again and again: `left` times more, or without end. -/
def repeatBody (e : Engine) (call : Call) (body : Text) : Nat → Option Nat → Act Completion
  | _, some 0 => return .ok []
  | 0, _ => throw .exhausted
  | turns + 1, left => do
    let result ← call.evaluate e body
    match result.status with
    | .ok | .next => call.repeatBody e body turns (left.map Nat.pred)
    | .leave => return .ok []
    | _ => return result

def repeating (e : Engine) (call : Call) : Act Completion :=
  match call.args with
  | [count, body] =>
    match Text.toInt? count with
    | none => return notInteger count
    | some i => call.repeatBody e body e.turns (if i < 0 then none else some i.toNat)
  | _ => return .wrongArgs "repeat count body"

/-- The truth that a condition stands for. -/
def truth? (s : Text) : Except Fault Bool :=
  let s := Text.trim s
  match Text.toInt? s with
  | some i => .ok (i ≠ 0)
  | none =>
    let word := Text.lower s
    if [("true" : Text), "yes", "on"].contains word then .ok true
    else if [("false" : Text), "no", "off"].contains word then .ok false
    else .error (.saying ("expected boolean value but got " ++ Text.quoted s))

/-- Tries conditions in order and runs the script of the first that holds. -/
def branches (e : Engine) (call : Call) : List Text → Act Completion
  | condition :: body :: rest => do
    match ← e.substitute call.context call.node condition with
    | .error stopped => return stopped
    | .ok value =>
      match truth? value with
      | .error f => return .fail f
      | .ok true => call.evaluate e body
      | .ok false =>
        match rest with
        | [] => return .ok []
        | word :: rest =>
          if word == Text.ofString "elseif" then call.branches e rest
          else
            match rest with
            | [body] =>
              if word == Text.ofString "else" then call.evaluate e body else return usage
            | _ => return usage
  | _ => return usage
where
  usage : Completion := .wrongArgs "if cond body ?elseif cond body ...? ?else body?"

def string (call : Call) : Completion :=
  match call.args with
  | sub :: first :: rest =>
    if sub == Text.ofString "equal" then
      match rest with
      | [second] => .ok (Text.ofBool (first == second))
      | _ => .wrongArgs "string equal string1 string2"
    else if sub == Text.ofString "length" then
      match rest with
      | [] => .ok (Text.ofNat first.length)
      | _ => .wrongArgs "string length string"
    else if sub == Text.ofString "prefix" then
      match rest with
      | [second] => .ok (Text.ofBool (first.isPrefixOf second))
      | _ => .wrongArgs "string prefix prefix string"
    else
      .failWith ("unknown or ambiguous subcommand " ++ Text.quoted sub ++
        ": must be equal, length, or prefix")
  | _ => .wrongArgs "string subcommand arg ?arg ...?"

/-- Defines a procedure. -/
def proc (call : Call) : Act Completion :=
  match call.args with
  | [name, params, body] =>
    match Script.splitList params with
    | .error f => return .fail (.malformed f)
    | .ok params =>
      Act.perform do
        let _ ← Op.defineCommand call.node
          { name, kind := .procedure, flags := .everywhere, type := "proc"
            action := some (.procedure name params body) }
        return []
  | _ => return .wrongArgs "proc name args body"

/-- Sets the parameters of a procedure to the arguments of a call. -/
def bindParams (call : Call) : List Text → List Text → Act Unit
  | param :: params, arg :: args => do
    call.setVar param arg
    call.bindParams params args
  | _, _ => return

/-- Runs a procedure. A last parameter `args` takes all arguments that are left. -/
def procedure (e : Engine) (call : Call) (name : Text) (params : List Text) (body : Text) :
    Act Completion := do
  let variadic := params.getLast? == some (Text.ofString "args")
  let fixed := if variadic then params.dropLast else params
  if call.args.length < fixed.length || (!variadic && fixed.length < call.args.length) then
    return .wrongArgs (Text.trim (name ++ " " ++ Text.words params))
  else
    call.bindParams fixed call.args
    if variadic then call.setVar "args" (Script.formatList (call.args.drop fixed.length))
    let result ← call.evaluate e body
    match result.status with
    | .leave | .next =>
      return .failWith ("invoked " ++ Text.quoted result.status.name ++ " outside of a loop")
    | .error => return result.annotate ("(procedure " ++ Text.quoted name ++ " line 1)")
    | _ => return result

def info (call : Call) : Act Completion := do
  match call.args with
  | [] => return .wrongArgs "info subcommand ?arg ...?"
  | sub :: rest =>
    let of (f : Node → Text) : Act Completion := do return .ok (← Act.ofNode call.node f)
    if sub == Text.ofString "commands" then
      of fun n => Script.formatList n.commands.visibleNames
    else if sub == Text.ofString "exists" then
      match rest with
      | [name] => of fun n => Text.ofBool (n.vars.get? name).isSome
      | _ => return .wrongArgs "info exists varName"
    else if sub == Text.ofString "vars" then of fun n => Script.formatList n.vars.names
    else if sub == Text.ofString "depth" then of fun n => Text.ofNat n.cancel.depth
    else if sub == Text.ofString "path" then of Node.path
    else if sub == Text.ofString "safe" then of fun n => Text.ofBool n.trust.safe
    else
      return .failWith ("unknown or ambiguous subcommand " ++ Text.quoted sub ++
        ": must be commands, depth, exists, path, safe, or vars")

/-- Sleeps; a cancellation or the end of the context wakes early. -/
def sleep (e : Engine) (call : Call) (span : Int) : Act Completion := do
  match call.context with
  | none => Act.crash missingContext
  | some context =>
    e.waitUntil ((← get).clock + span) fun w =>
      context.hasEnded w || (w.node? call.node).any fun n => n.cancel.signaled
    let w ← get
    if context.hasEnded w && !((w.node? call.node).any fun n => n.cancel.signaled) then
      return .fail .contextEnded
    else
      match ← Act.checkpoint call.node with
      | some reason => return .fail (.canceled reason)
      | none => return .ok []

/-- Sleeps, or schedules a script, or handles scheduled scripts. -/
def after (e : Engine) (call : Call) : Act Completion := do
  match call.args with
  | [] => return .wrongArgs "after ms ?script ...?"
  | first :: rest =>
    if first == Text.ofString "info" then
      let events ← Act.ofNode call.node fun n => n.queue.toList
      return .ok (Script.formatList (events.map fun event => event.id.text))
    else if first == Text.ofString "cancel" then
      match rest with
      | [word] =>
        Act.modifyNode call.node fun n =>
          { n with queue := n.queue.withdraw fun event => event.id.text == word }
        return .ok []
      | _ => return .wrongArgs "after cancel id"
    else
      match (Text.toInt? first).filter (0 ≤ ·) with
      | none =>
        return .failWith ("bad argument " ++ Text.quoted first ++
          ": must be a non-negative integer, cancel, or info")
      | some ms =>
        let span := spanOfMilliseconds ms
        if rest.isEmpty then call.sleep e span
        else
          let event ← modifyGet fun w =>
            w.enqueue call.node none (some (w.clock + span)) false (Text.words rest) 0
          return .ok event.text

/-- Polls for cancellation until an instant, or without end. -/
def spinTurns (e : Engine) (call : Call) (context : Context) (deadline : Option Int)
    (pause : Int) : Nat → Act Completion
  | 0 => throw .exhausted
  | turns + 1 => do
    match ← Act.checkpoint call.node with
    | some reason => return .fail (.canceled reason)
    | none =>
      let w ← get
      if context.hasEnded w then return .fail .contextEnded
      else if deadline.any (· ≤ w.clock) then return .ok []
      else
        e.waitUntil (w.clock + pause) fun _ => false
        call.spinTurns e context deadline pause turns

/-- How long a polling loop pauses, given the sleep time of the node. -/
def spinPause (sleepTime : Int) : Int :=
  if sleepTime ≤ 0 || 10 * millisecond < sleepTime then millisecond else sleepTime

/-- Polls until an instant. Where a cancellation is met at once, no context is needed. -/
def spinUntil (e : Engine) (call : Call) (deadline : Option Int) : Act Completion := do
  let pause ← Act.ofNode call.node fun n => spinPause n.cancel.limits.sleepTime
  match call.context with
  | some context => call.spinTurns e context deadline pause e.turns
  | none =>
    match ← Act.checkpoint call.node with
    | some reason => return .fail (.canceled reason)
    | none => Act.crash missingContext

def spin (e : Engine) (call : Call) : Act Completion := do
  match call.args with
  | [] => call.spinUntil e none
  | [word] =>
    match Text.toInt? word with
    | none => return notInteger word
    | some ms => call.spinUntil e (some ((← get).clock + spanOfMilliseconds ms))
  | _ => return .wrongArgs "spin ?ms?"

/-- Tells a guard script what it decides on. -/
def policyInfo (call : Call) : Act Completion := do
  match call.context.bind Context.deciding with
  | none => return .failWith "no policy is being evaluated"
  | some case =>
    let caller ← Act.ofNode case.caller Node.path
    let target ← Act.ofNode case.target Node.path
    if !case.script.isEmpty then
      return .ok (Script.formatList ["eval", caller, target, case.script])
    else return .ok (Script.formatList ("invoke" :: caller :: target :: case.name :: case.args))

/-- The refusal where the host has no files. -/
def noFiles : Completion := .failWith "no filesystem available"

def fileFault (verb name reason : Text) : Completion :=
  .failWith ("couldn't " ++ verb ++ " file " ++ Text.quoted name ++ ": " ++ reason)

/-- Puts a file store in place after a change, and tells why the change was refused if it was. -/
def storeFiles (verb name : Text) (change : Except Text Unit × FileStore) : Act Completion := do
  modify (World.modifyHost fun h => { h with files := some change.2 })
  match change.1 with
  | .ok () => return .ok []
  | .error reason => return fileFault verb name reason

def file (call : Call) : Act Completion := do
  match (← get).host.files with
  | none => return noFiles
  | some files =>
    match call.args with
    | sub :: name :: rest =>
      if sub == Text.ofString "exists" then return .ok (Text.ofBool (files.exists? name))
      else if sub == Text.ofString "read" then
        match files.read name with
        | .ok content => return .ok content
        | .error reason => return fileFault "read" name reason
      else if sub == Text.ofString "write" then
        match rest with
        | [content] => storeFiles "write" name (files.write name content)
        | _ => return .wrongArgs "file write name data"
      else if sub == Text.ofString "delete" then storeFiles "delete" name (files.remove name)
      else
        return .failWith ("unknown file option " ++ Text.quoted sub ++
          ": must be delete, exists, read, or write")
    | _ => return .wrongArgs "file option name ?arg ...?"

/-- Evaluates the content of a file. -/
def source (e : Engine) (call : Call) : Act Completion := do
  match call.args with
  | [name] =>
    match (← get).host.files with
    | none => return noFiles
    | some files =>
      match files.read name with
      | .error reason => return fileFault "read" name reason
      | .ok script =>
        let result ← call.evaluate e script
        return if result.isError then result.annotate ("(file " ++ Text.quoted name ++ ")")
          else result
  | _ => return .wrongArgs "source fileName"

/-- Asks the host to end the program. -/
def exitWith (code : Int) : Act Completion := do
  if (← get).host.canExit then
    modify (World.modifyHost fun h => { h with exits := h.exits ++ [code] })
    return .ok []
  else return .failWith "exit is not available in this host"

def exit (call : Call) : Act Completion :=
  match call.args with
  | [] => exitWith 0
  | [word] =>
    match Text.toInt? word with
    | none => return notInteger word
    | some code => exitWith code
  | _ => return .wrongArgs "exit ?returnCode?"

/-- Runs a command of the script language. -/
def builtin (e : Engine) (call : Call) : Builtin → Act Completion
  | .set => call.set
  | .unset => call.unset
  | .incr => call.incr
  | .list => return .ok (Script.formatList call.args)
  | .listLength => return call.listLength
  | .listIndex => return call.listIndex
  | .puts => call.puts
  | .eval => call.eval e
  | .catching => call.catching e
  | .raise => return call.raise
  | .leaveLoop => return call.jump .leave
  | .nextTurn => return call.jump .next
  | .repeating => call.repeating e
  | .conditional => call.branches e call.args
  | .string => return call.string
  | .proc => call.proc
  | .info => call.info
  | .after => call.after e
  | .spin => call.spin e
  | .policyInfo => call.policyInfo
  | .file => call.file
  | .source => call.source e
  | .exit => call.exit

end Call

end InterpTree
