import InterpTree.Script.ListFormat

/-!
Commands and the table that an interpreter keeps of them. A table lists definitions in the order in
which they were made; each is visible or hidden under some name, which hiding and exposing may
change while the definition stays the same.
-/

namespace InterpTree

/-- The commands that come with the script language. -/
inductive Builtin
  | set
  | unset
  | incr
  | list
  | listLength
  | listIndex
  | puts
  | eval
  | catching
  | raise
  | leaveLoop
  | nextTurn
  | repeating
  | conditional
  | string
  | proc
  | info
  | after
  | spin
  | policyInfo
  | file
  | source
  | exit
deriving DecidableEq

/-- The commands that tests of a host define. -/
inductive HostAction
  /-- Gives its arguments back. -/
  | echo
  /-- Fails with its arguments. -/
  | fail
  /-- Fails without a reason. -/
  | failUnexplained
  /-- Completes with a given status. -/
  | complete (code : Int) (value : Text)
  /-- Crashes the host. -/
  | crash (message : Text)
  /-- Tells how it was called. -/
  | describe
deriving DecidableEq

/-- An alias: a command of one interpreter that forwards to a command of another, or of the same.
The target path is absolute and followed anew on every call. -/
structure Alias where
  source : Text
  targetPath : Text
  targetName : Text
  bound : List Text
  cross : Bool
  seq : Nat
deriving DecidableEq

/-- The target command line without the arguments of a call. -/
def Alias.text (a : Alias) : Text := Text.words (a.targetName :: a.bound)

/-- What a command does. -/
inductive Action
  | builtin (b : Builtin)
  | ensemble
  | procedure (name : Text) (params : List Text) (body : Text)
  | forward (a : Alias)
  | host (h : HostAction)
deriving DecidableEq

inductive CommandKind
  | plain
  | procedure
  | execute
  | shim
deriving DecidableEq

def CommandKind.name : CommandKind → Text
  | .plain => "command"
  | .procedure => "procedure"
  | .execute => "execute"
  | .shim => "alias"

/-- The kind with a code. -/
def CommandKind.ofCode (code : Int) : CommandKind :=
  if code = 1 then .procedure else if code = 2 then .execute else if code = 3 then .shim else .plain

/-- In which interpreters a command stays visible, and whether it may be removed. -/
structure CommandFlags where
  safe : Bool := false
  standard : Bool := false
  noRemove : Bool := false
deriving DecidableEq

/-- The flags as bits. -/
def CommandFlags.toNat (f : CommandFlags) : Nat :=
  (if f.safe then 1 else 0) + (if f.standard then 2 else 0) + (if f.noRemove then 4 else 0)

/-- Visible in safe and in standard interpreters. -/
def CommandFlags.everywhere : CommandFlags := { safe := true, standard := true }

/-- A definition. Policies match on its type and token; `seq` counts the definitions of its
interpreter. -/
structure Command where
  name : Text
  kind : CommandKind := .plain
  flags : CommandFlags := {}
  type : Text
  token : Nat := 0
  action : Action
  seq : Nat
deriving DecidableEq

/-- The alias that a command is the shim of. -/
def Command.alias? (c : Command) : Option Alias :=
  match c.action with
  | .forward a => some a
  | _ => none

/-- Why trust hides a command. -/
inductive HideReason
  | safe
  | standard
deriving DecidableEq

/-- Whether a command stays visible for all that the reason cares. -/
def Command.passes (c : Command) : HideReason → Bool
  | .safe => c.flags.safe
  | .standard => c.flags.standard

/-- A definition with the name it goes by, whether it is hidden, and for which reasons trust hid
it. -/
structure Entry where
  name : Text
  hidden : Bool := false
  bySafe : Bool := false
  byStandard : Bool := false
  command : Command
deriving DecidableEq

namespace Entry

/-- Whether trust hid the entry, for whatever reason. -/
def isAutoHidden (e : Entry) : Bool := e.bySafe || e.byStandard

def hasReason (e : Entry) : HideReason → Bool
  | .safe => e.bySafe
  | .standard => e.byStandard

def setReason (e : Entry) (reason : HideReason) (on : Bool) : Entry :=
  match reason with
  | .safe => { e with bySafe := on }
  | .standard => { e with byStandard := on }

end Entry

/-- The definitions of an interpreter, oldest first. The one list is the table of the visible
definitions and that of the hidden ones: each entry tells which it belongs to. A name could be in both;
that it never is has to be shown of the operations. -/
abbrev CommandTable := List Entry

namespace CommandTable

/-- The visible definition of a name. -/
def visible? (name : Text) (t : CommandTable) : Option Command :=
  (t.find? fun e => !e.hidden && e.name == name).map Entry.command

/-- The hidden definition of a name. -/
def hidden? (name : Text) (t : CommandTable) : Option Command :=
  (t.find? fun e => e.hidden && e.name == name).map Entry.command

/-- The visible names, in the order of definition. -/
def visibleNames (t : CommandTable) : List Text :=
  (t.filter fun e => !e.hidden).map Entry.name

/-- The hidden names: plain commands first, then procedures, each in the order of definition. -/
def hiddenNames (t : CommandTable) : List Text :=
  let hidden := t.filter Entry.hidden
  let isProcedure (e : Entry) : Bool := e.command.kind = .procedure
  ((hidden.filter fun e => !isProcedure e) ++ hidden.filter isProcedure).map Entry.name

/-- The table without the visible definition of a name. -/
def eraseVisible (name : Text) (t : CommandTable) : CommandTable :=
  t.filter fun e => e.hidden || e.name != name

/-- Moves the visible definition of `name` among the hidden ones, as `newName`. -/
def hide (name newName : Text) (t : CommandTable) : CommandTable :=
  t.map fun e =>
    if !e.hidden && e.name == name then { e with name := newName, hidden := true } else e

/-- Moves the hidden definition of `name` among the visible ones, as `newName`. Trust has no more
reason to hide it. -/
def expose (name newName : Text) (t : CommandTable) : CommandTable :=
  t.map fun e =>
    if e.hidden && e.name == name then
      { e with name := newName, hidden := false, bySafe := false, byStandard := false }
    else e

/-- Hides what a reason of trust does not let pass, unless a hidden definition has the same name,
and adds the reason to what trust hid before. -/
def hideFor (reason : HideReason) (t : CommandTable) : CommandTable :=
  t.map fun e =>
    if e.command.passes reason then e
    else if !e.hidden then
      if (t.hidden? e.name).isSome then e else { e with hidden := true }.setReason reason true
    else if e.isAutoHidden then e.setReason reason true
    else e

/-- Takes a reason of trust back: what it alone kept hidden is visible again, unless a visible
definition has the same name. -/
def restoreFor (reason : HideReason) (t : CommandTable) : CommandTable :=
  t.map fun e =>
    if e.hidden && e.hasReason reason then
      let e := e.setReason reason false
      if e.isAutoHidden || (t.visible? e.name).isSome then e else { e with hidden := false }
    else e

/-- The table without the shims of an alias, hidden ones included. -/
def eraseShims (a : Alias) (t : CommandTable) : CommandTable :=
  t.filter fun e => (e.command.alias?.map Alias.seq) != some a.seq

end CommandTable

end InterpTree
