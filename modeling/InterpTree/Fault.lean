import InterpTree.Script.Parse

/-!
Faults: why an operation failed. A fault is a chain, the outermost reason first, in which each
reason may have the next as its cause. Refusals of the interpreter tree carry a kind, by which
callers tell them apart whatever the wording.
-/

namespace InterpTree

/-- The kinds of refusals. -/
inductive Kind
  | notFound
  | alreadyExists
  | permissionDenied
  | invalidArgument
  | alreadyPending
  | notPending
  | internal
  | noSuchInterpreter
  | other (name : Text)
deriving DecidableEq

namespace Kind

def name : Kind → Text
  | .notFound => "NotFound"
  | .alreadyExists => "AlreadyExists"
  | .permissionDenied => "PermissionDenied"
  | .invalidArgument => "InvalidArgument"
  | .alreadyPending => "AlreadyPending"
  | .notPending => "NotPending"
  | .internal => "InternalError"
  | .noSuchInterpreter => "NoSuchInterpreter"
  | .other name => name

/-- The kinds that operations of the tree use. -/
def all : List Kind :=
  [.notFound, .alreadyExists, .permissionDenied, .invalidArgument, .alreadyPending, .notPending,
    .internal, .noSuchInterpreter]

def ofName (name : Text) : Kind :=
  (all.find? fun k => k.name == name).getD (.other name)

end Kind

/-- Why an evaluation was canceled. An unwinding cancellation cannot be caught. -/
structure CancelReason where
  message : Text := []
  unwind : Bool := false
  forced : Bool := false
deriving DecidableEq

def CancelReason.text (r : CancelReason) : Text :=
  if !r.message.isEmpty then r.message
  else if r.unwind then "eval unwound"
  else "eval canceled"

/-- A chain of reasons. The label of a reason tells it from every other one, also from one with the
same wording; reasons whose identity nobody asks for all have label zero. -/
inductive Fault
  /-- A refusal of some kind. -/
  | failure (label : Nat) (kind : Kind) (message : Text)
  /-- A refusal of some kind with a cause. -/
  | failureOf (label : Nat) (kind : Kind) (message : Text) (cause : Fault)
  /-- A note on where the cause arose. -/
  | during (label : Nat) (message : Text) (cause : Fault)
  /-- Anything else, as its wording. -/
  | plain (label : Nat) (text : Text)
  /-- A malformed script or list. -/
  | malformed (error : Script.SyntaxError)
  /-- A cancellation met at a checkpoint. -/
  | canceled (reason : CancelReason)
  /-- A worker that takes no more work. -/
  | workerClosed
  /-- A context that has ended. -/
  | contextEnded
  /-- A document that cannot be decoded. -/
  | undecodable
deriving DecidableEq, Inhabited

namespace Fault

/-- A refusal. -/
def of (kind : Kind) (message : Text) : Fault := .failure 0 kind message

/-- A refusal with a cause. -/
def because (kind : Kind) (message : Text) (cause : Fault) : Fault :=
  .failureOf 0 kind message cause

/-- A fault that is only its wording. -/
def saying (text : Text) : Fault := .plain 0 text

/-- A fault with a note in front. -/
def noted (message : Text) (cause : Fault) : Fault := .during 0 message cause

/-- The wording of a fault. -/
def text : Fault → Text
  | .failure _ kind message => if message.isEmpty then kind.name else message
  | .failureOf _ _ message cause =>
    if message.isEmpty then cause.text else message ++ ": " ++ cause.text
  | .during _ message cause => message ++ ": " ++ cause.text
  | .plain _ text => text
  | .malformed error => error.message
  | .canceled reason => reason.text
  | .workerClosed => "worker closed"
  | .contextEnded => "context canceled"
  | .undecodable => "yaml: cannot decode"

/-- The next reason in the chain. -/
def cause? : Fault → Option Fault
  | .failureOf _ _ _ cause => some cause
  | .during _ _ cause => some cause
  | _ => none

/-- The reasons of the chain, outermost first. -/
def chain : Fault → List Fault
  | f@(.failureOf _ _ _ cause) => f :: cause.chain
  | f@(.during _ _ cause) => f :: cause.chain
  | f => [f]

/-- The kind of a reason that is a refusal. -/
def ownKind? : Fault → Option Kind
  | .failure _ kind _ => some kind
  | .failureOf _ kind _ _ => some kind
  | _ => none

/-- The kind of the outermost refusal in the chain. -/
def kind? (f : Fault) : Option Kind := f.chain.findSome? ownKind?

/-- The kind that a refusal without message and cause stands for as a pattern. -/
def pattern? : Fault → Option Kind
  | .failure _ kind [] => some kind
  | _ => none

/-- Whether one reason answers to a pattern: it is the pattern itself, or the pattern is a bare
kind and the reason is of that kind. -/
def answers (reason target : Fault) : Bool :=
  reason = target ||
    match target.pattern?, reason.ownKind? with
    | some k, some k' => k = k'
    | _, _ => false

/-- Whether some reason in the chain answers to a pattern. -/
def isA (f target : Fault) : Bool := f.chain.any fun reason => reason.answers target

/-- The cancellation in the chain, if there is one. -/
def cancelReason? (f : Fault) : Option CancelReason :=
  f.chain.findSome? fun
    | .canceled reason => some reason
    | _ => none

/-- Whether the chain ends in a context that has ended. -/
def isContextEnded (f : Fault) : Bool := f.chain.any (· = .contextEnded)

end Fault

end InterpTree
