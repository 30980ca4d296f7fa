import InterpTree.Proofs.Answers
import InterpTree.Proofs.Vetting

/-!
How errors are handed on. While a request is answered others are made; where one of these is answered
with an error, that error is the answer of the first request too, with a line more on its trail or
none. `Relays` says, one kind of request after the other, when that is so.
-/

namespace InterpTree

namespace Completion

/-- The completion with more lines on its trail. -/
def relayed (lines : List Text) (c : Completion) : Completion := { c with trail := c.trail ++ lines }

@[simp] theorem relayed_nil (c : Completion) : c.relayed [] = c := by
  simp [relayed]

@[simp] theorem relayed_relayed (first second : List Text) (c : Completion) :
    (c.relayed first).relayed second = c.relayed (first ++ second) := by
  simp [relayed]

theorem status_of_isError {c : Completion} (error : c.isError = true) : c.status = .error :=
  of_decide_eq_true error

theorem status_ne_ok_of_isError {c : Completion} (error : c.isError = true) : c.status ≠ .ok := by
  rw [status_of_isError error]
  exact nofun

end Completion

/-- The node takes no evaluation more. -/
def World.isDeep (w : World) (id : NodeId) : Bool :=
  (w.node? id).any fun n => 0 < n.limit && n.limit < n.cancel.depth

/-- The node takes no frame of an alias more. -/
def World.isFull (w : World) (id : NodeId) : Bool :=
  (w.node? id).any fun n => 0 < n.limit && n.limit ≤ n.frames.depth

namespace Engine

/-- The line that an error gets on its way out of a command. -/
def commandLine (command : Script.Command) : Text :=
  "while executing " ++ Text.quoted (shownSource command.source)

theorem leaveCommand_of_error {command : Script.Command} {c : Completion}
    (error : c.isError = true) : leaveCommand command c = c.relayed [commandLine command] := by
  simp [leaveCommand, error, Completion.annotate, Completion.relayed, commandLine]

end Engine

namespace Call

/-- The last parameter takes all arguments that are left. -/
def isVariadic (params : List Text) : Bool := params.getLast? == some (Text.ofString "args")

/-- The parameters of a procedure that take one argument each. -/
def fixedParams (params : List Text) : List Text :=
  if isVariadic params then params.dropLast else params

/-- The call has as many arguments as a procedure with these parameters takes. -/
def Fits (call : Call) (params : List Text) : Prop :=
  (fixedParams params).length ≤ call.args.length ∧
    (isVariadic params = true ∨ call.args.length ≤ (fixedParams params).length)

instance (call : Call) (params : List Text) : Decidable (call.Fits params) :=
  inferInstanceAs (Decidable (_ ∧ _))

/-- Sets the parameters of a procedure to the arguments of a call. -/
def take (call : Call) (params : List Text) : Act Unit := do
  call.bindParams (fixedParams params) call.args
  if isVariadic params then
    call.setVar "args" (Script.formatList (call.args.drop (fixedParams params).length))

end Call

namespace Engine

section

variable (e : Engine)

/-- A script comes to one of its commands, whose words are substituted from the world `v` on. -/
inductive Reaches (context : Option Context) (id : NodeId) (script : Text) (w : World)
    (command : Script.Command) (v : World) : Prop
  | intro {n : Node} {before after : List Script.Command} {last : Completion} {u : World}
      (found : w.node? id = some n) (ready : (n.dead || !w.settings.hasEvaluator) = false)
      (room : (Request.begun w (.evaluate context id script)).isDeep id = false)
      (parsed : Script.parse script = .ok (before ++ command :: after))
      (earlier : e.runCommands (context.getD (.ofNode id)) id {} before
        (Request.begun w (.evaluate context id script)) = .ok last u)
      (well : last.status = .ok) (met : Act.checkpoint id u.pass = .ok none v)
      (going : (context.getD (.ofNode id)).hasEnded v = false)

/-- The substitution of a text comes to a script in brackets, which is evaluated from `v` on. -/
inductive Brackets (context : Option Context) (id : NodeId) (text : Text) (w : World) (source : Text)
    (v : World) : Prop
  | intro {before after : List Script.Piece} {value : Text}
      (split : Script.pieces text = before ++ .bracketed source :: after)
      (earlier : e.substitutePieces context id before w = .ok (.ok value) v)

/-- The substitution of words comes to a script in brackets. -/
inductive BracketsOf (context : Option Context) (id : NodeId) (words : List Script.Word) (w : World)
    (source : Text) (v : World) : Prop
  | intro {before after : List Script.Word} {word : Script.Word} {values : List Text} {u : World}
      (split : words = before ++ word :: after)
      (earlier : e.substituteWords context id before w = .ok (.ok values) u)
      (bare : word.form ≠ .braced) (brackets : Brackets e context id word.text u source v)

/-- A loop makes some turns, none of which ends it. -/
inductive Turns (call : Call) (body : Text) : Nat → World → World → Prop
  | none {w : World} : Turns call body 0 w w
  | more {turns : Nat} {w u v : World} {c : Completion} (turned : call.evaluate e body w = .ok c u)
      (going : c.status = .ok ∨ c.status = .next) (rest : Turns call body turns u v) :
      Turns call body (turns + 1) w v

/-- Trying conditions comes to a script: one in brackets in a condition, or that of a branch. -/
inductive Tries (call : Call) : List Text → World → Text → World → Prop
  | condition {condition body source : Text} {rest : List Text} {w v : World}
      (brackets : Brackets e call.context call.node condition w source v) :
      Tries call (condition :: body :: rest) w source v
  | holds {condition body value : Text} {rest : List Text} {w v : World}
      (substituted : e.substitute call.context call.node condition w = .ok (.ok value) v)
      (truth : Call.truth? value = .ok true) : Tries call (condition :: body :: rest) w body v
  | otherwise {condition body value last : Text} {w v : World}
      (substituted : e.substitute call.context call.node condition w = .ok (.ok value) v)
      (truth : Call.truth? value = .ok false) :
      Tries call [condition, body, "else", last] w last v
  | next {condition body value script : Text} {rest : List Text} {w u v : World}
      (substituted : e.substitute call.context call.node condition w = .ok (.ok value) u)
      (truth : Call.truth? value = .ok false) (tries : Tries call rest u script v) :
      Tries call (condition :: body :: "elseif" :: rest) w script v

/-- To answer a request in `w` another is made in `v`. If that is answered with an error, then so is
the first, with the lines added. -/
inductive Relays : Request → World → Request → World → List Text → Prop
  /-- A script in brackets. -/
  | brackets {context : Option Context} {id : NodeId} {script source : Text} {w u v : World}
      {command : Script.Command} (reaches : Reaches e context id script w command u)
      (brackets : BracketsOf e (some (context.getD (.ofNode id))) id command.words u source v) :
      Relays (.evaluate context id script) w
        (.evaluate (some (context.getD (.ofNode id))) id source) v [commandLine command]
  /-- A command of a script. -/
  | command {context : Option Context} {id : NodeId} {script name : Text} {args : List Text}
      {w u v : World} {command : Script.Command} {c : Command}
      (reaches : Reaches e context id script w command u)
      (substituted : e.substituteWords (some (context.getD (.ofNode id))) id command.words u =
        .ok (.ok (name :: args)) v)
      (called : v.called? { context := some (context.getD (.ofNode id)), node := id, name, args } =
        some c) :
      Relays (.evaluate context id script) w
        (.perform { context := some (context.getD (.ofNode id)), node := id, name, args } c.action) v
        [commandLine command]
  | eval {call : Call} {w : World} (some : call.args ≠ []) :
      Relays (.perform call (.builtin .eval)) w
        (.evaluate call.context call.node (Text.words call.args)) w []
  | source {call : Call} {name script : Text} {files : FileStore} {w : World}
      (named : call.args = [name]) (mounted : w.host.files = some files)
      (read : files.read name = .ok script) :
      Relays (.perform call (.builtin .source)) w (.evaluate call.context call.node script) w
        ["(file " ++ Text.quoted name ++ ")"]
  | repeating {call : Call} {count body : Text} {i : Int} {turns : Nat} {w v : World}
      (named : call.args = [count, body]) (number : Text.toInt? count = some i)
      (left : i < 0 ∨ turns < i.toNat) (able : turns < e.turns)
      (turned : Turns e call body turns w v) :
      Relays (.perform call (.builtin .repeating)) w (.evaluate call.context call.node body) v []
  | branch {call : Call} {script : Text} {w v : World} (tries : Tries e call call.args w script v) :
      Relays (.perform call (.builtin .conditional)) w (.evaluate call.context call.node script) v []
  | procedure {call : Call} {name body : Text} {params : List Text} {w v : World}
      (fits : call.Fits params) (bound : call.take params w = .ok () v) :
      Relays (.perform call (.procedure name params body)) w
        (.evaluate call.context call.node body) v ["(procedure " ++ Text.quoted name ++ " line 1)"]
  /-- A call through an alias. -/
  | forward {h : Hop} {target : NodeId} {c : Command} {w : World}
      (resolved : w.resolve? World.root h.shim.targetPath = some target)
      (room : w.isFull h.call.node = false)
      (called : (w.inside h.call.node ("alias " ++ h.shim.source)
        (FrameFlags.restricted + FrameFlags.viaAlias)).called? (h.onward target) = some c) :
      Relays h.request w (.perform (h.onward target) c.action)
        (w.inside h.call.node ("alias " ++ h.shim.source)
          (FrameFlags.restricted + FrameFlags.viaAlias)) [h.line]
  /-- An evaluation in the node at a path. -/
  | evaluation {call : Call} {words : List Text} {target : NodeId} {w u : World}
      (named : call.args = ("eval" : Text) :: words) (enough : 2 ≤ words.length)
      (resolved : w.resolve? call.node (words.headD []) = some target)
      (vetted : target = call.node ∧ u = w ∨ target ≠ call.node ∧
        e.vet (some (call.context.getD (.ofNode call.node)))
          { caller := call.node, target, name := "eval", script := Text.words (words.drop 1) }
          Policy.guardsEvaluation w = .ok none u) :
      Relays (.perform call .ensemble) w
        (.evaluate (some (call.context.getD (.ofNode call.node))) target (Text.words (words.drop 1)))
        (u.inside target "eval" FrameFlags.evaluate)
        (if target = call.node then [] else ["(in interp eval " ++ Text.quoted (words.headD []) ++ ")"])
  /-- A call of a hidden command. -/
  | hidden {call : Call} {words args : List Text} {options : Options} {name : Text}
      {target : NodeId} {c : Command} {w u : World}
      (named : call.args = ("invokehidden" : Text) :: words) (enough : 2 ≤ words.length)
      (parsed : Options.parse [⟨"-global", false⟩] (words.drop 1) = .ok (options, name :: args))
      (entitled : (w.node? call.node).any (fun n => !n.trust.safe) = true)
      (resolved : w.resolve? call.node (words.headD []) = some target)
      (hidden : ((w.node? target).bind fun n => n.commands.hidden? name) = some c)
      (vetted : e.vet (some (call.context.getD (.ofNode call.node)))
        { caller := call.node, target, name, args } (fun p => p.guardsCommand c) w = .ok none u) :
      Relays (.perform call .ensemble) w
        (.perform { context := some (call.context.getD (.ofNode call.node)), node := target, name
                    args, hidden := true } c.action)
        (u.inside target ("invokehidden " ++ name)
          (FrameFlags.hidden + if options.has "-global" then FrameFlags.atGlobal else 0)) []

end

end Engine

end InterpTree
